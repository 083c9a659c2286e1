import MapleCompiler.Text.Lines

/-!
# Paths of files

A path is a text of pieces with slashes between them. Empty pieces and pieces
`.` say nothing, except a `.` at the very front of a relative path; what is
left names a file from its directories. The operations here cut and join the
text and keep the rest of it as it was written.

The extension of a file is what follows the last point of its name, where a
point at the front of the name does not count.
-/

namespace MapleCompiler.Path

/-- A piece of a path. -/
abbrev Piece : Type := List Char

/-- The pieces of a path, last one first. -/
def pieces (path : String) : List Piece := (Lines.splitAt '/' path.toList).reverse

/-- The text of some pieces, last one first. -/
def ofPieces (pieces : List Piece) : String := "/".intercalate (pieces.reverse.map String.ofList)

/-- Whether a path starts from the root. -/
def isAbsolute (path : String) : Bool := path.toList.head? == some '/'

/-- Pieces, last one first, from the last one that says something. -/
def trim : List Piece → List Piece
  | [] => []
  | [first] => if first = [] then [] else [first]
  | piece :: rest => if piece = [] ∨ piece = ['.'] then trim rest else piece :: rest

/-- The name of the file that a path leads to; a path that ends in a step to a
directory has none. -/
def fileName? (path : String) : Option Piece :=
  match trim (pieces path) with
  | [] => none
  | name :: _ => if name = ['.'] ∨ name = ['.', '.'] then none else some name

/-- **The directory part of a path.** The root and the empty path have none. -/
def parent? (path : String) : Option String :=
  match trim (pieces path) with
  | [] => none
  | _ :: rest =>
    match trim rest with
    | [] => some (if isAbsolute path then "/" else "")
    | kept => some (ofPieces kept)

/-- The name of a file before its extension, and the extension. -/
def splitExtension (name : Piece) : Piece × Option Piece :=
  match name.reverse.dropWhile (· != '.') with
  | [] => (name, none)
  | _ :: stem =>
    if stem = [] then (name, none)
    else (stem.reverse, some (name.reverse.takeWhile (· != '.')).reverse)

/-- The extension of the file that a path leads to. -/
def extension? (path : String) : Option String :=
  ((fileName? path).bind fun name => (splitExtension name).2).map String.ofList

/-- The name, without extension, of the file that a path leads to. -/
def stem? (path : String) : Option String :=
  (fileName? path).map fun name => String.ofList (splitExtension name).1

/-- A path up to the last point of its file's name. What follows the name goes
too; a path without a file stays as it is. -/
def cutAtPoint (path : String) : String :=
  match fileName? path with
  | none => path
  | some name => ofPieces ((splitExtension name).1 :: (trim (pieces path)).tail)

/-- **A path without the extension of its file.** The extension goes first and
its point after it, so that a name which is left with two points only, a step
to the parent directory, keeps them. -/
def dropExtension (path : String) : String :=
  let width := ((extension? path).getD "").length
  cutAtPoint (String.ofList (path.toList.take (path.length - width)))

/-- **A path taken from a directory**; an absolute one stays as it is. -/
def join (directory path : String) : String :=
  if isAbsolute path || directory = "" then path
  else if directory.toList.getLast? == some '/' then directory ++ path
  else directory ++ "/" ++ path

/-- The directory part of a path, with `.` for one that is not written. -/
def directory (path : String) : String :=
  match parent? path with
  | some "" | none => "."
  | some dir => dir

end MapleCompiler.Path
