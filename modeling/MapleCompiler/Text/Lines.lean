/-!
# The lines of a text

A line ends with a line feed, and a carriage return right before that line
feed belongs to the ending. Text after the last line feed is a line of its
own unless it is empty, so a final line feed opens no further line.
-/

namespace MapleCompiler.Lines

/-- The stretches of a text between its occurrences of `sep`: one more than
there are occurrences. -/
def splitAt (sep : Char) : List Char → List (List Char)
  | [] => [[]]
  | c :: cs =>
    if c = sep then [] :: splitAt sep cs
    else
      match splitAt sep cs with
      | [] => [[c]]
      | piece :: pieces => (c :: piece) :: pieces

/-- A line without the carriage return at its end. -/
def dropReturn (line : List Char) : List Char :=
  if line.getLast? = some '\r' then line.dropLast else line

/-- The lines made of the stretches between line feeds. -/
def ofPieces : List (List Char) → List (List Char)
  | [] => []
  | [last] => if last = [] then [] else [last]
  | piece :: pieces => dropReturn piece :: ofPieces pieces

/-- The lines of a text, without their endings. -/
def ofText (text : String) : List String :=
  (ofPieces (splitAt '\n' text.toList)).map String.ofList

/-- Line `n` of a text, counted from one. -/
def get? (text : String) (n : Nat) : Option String :=
  if n = 0 then none else (ofText text)[n - 1]?

end MapleCompiler.Lines
