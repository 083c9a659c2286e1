import MapleCompiler.Path
import MapleCompiler.Text.Octets

/-!
# Trees of files

A `FileTree` holds directories, files and symbolic links by their places below the
root. A file may have several places, its names; it is stored once with all of them,
so what is written under one name is read under the others too.

The operations take paths as texts and walk them piece by piece: a step goes only
through directories, empty pieces and `.` stay, and `..` goes up. A link on the way
is replaced by the path that it holds. Whether a link at the end is, depends on the
operation: `FileTree.locate` stops at it, `FileTree.reach` goes on to what it leads
to. Reading and writing use the second, so a file is written where its path reaches
and not where its name stands. Every way an operation can fail has its reason,
`FileError`.

Each entry but a link has a mode of twelve bits, and so has the root. The tree is
seen by the owner of all its entries, so of the rights that a mode gives only the
owner's count.
-/

namespace MapleCompiler

/-- Why an operation on files fails. -/
inductive FileError
  | notFound
  | badFormat
  | accessDenied
  | alreadyExists
  | notDirectory
  | isDirectory
  | nameTooLong
  | notEmpty
  | tooManyLinks
  /-- Nothing is open to read from or to write to. -/
  | badDescriptor
  /-- The file does not hold text. -/
  | notText
deriving DecidableEq

/-- A failure in words, without its number. -/
def FileError.reason : FileError → String
  | notFound => "No such file or directory"
  | badFormat => "Exec format error"
  | accessDenied => "Permission denied"
  | alreadyExists => "File exists"
  | notDirectory => "Not a directory"
  | isDirectory => "Is a directory"
  | nameTooLong => "File name too long"
  | notEmpty => "Directory not empty"
  | tooManyLinks => "Too many levels of symbolic links"
  | badDescriptor => "Bad file descriptor"
  | notText => "stream did not contain valid UTF-8"

/-- The number of a failure; a file without text is none of the system's
failures. -/
def FileError.number? : FileError → Option Nat
  | notFound => some 2
  | badFormat => some 8
  | accessDenied => some 13
  | alreadyExists => some 17
  | notDirectory => some 20
  | isDirectory => some 21
  | nameTooLong => some 36
  | notEmpty => some 39
  | tooManyLinks => some 40
  | badDescriptor => some 9
  | notText => none

/-- A failure in words. -/
def FileError.message (e : FileError) : String :=
  match e.number? with
  | some n => e.reason ++ " (os error " ++ toString n ++ ")"
  | none => e.reason

/-- What a file holds. -/
inductive Content
  /-- A text. -/
  | text (text : String)
  /-- Bytes that are no text. -/
  | binary (bytes : List UInt8)
  /-- Nothing, whatever is written: the file is a device. -/
  | device
deriving DecidableEq

namespace Content

/-- The bytes of a file. -/
def octets : Content → String
  | text t => Octets.ofText t
  | binary bytes => String.ofList (bytes.map fun b => Char.ofNat b.toNat)
  | device => ""

/-- What a file holds after `new` was written to it. -/
def replacedBy (old new : Content) : Content :=
  match old with
  | device => device
  | _ => new

/-- A file of given bytes. -/
def ofOctets (octets : String) : Content :=
  match Octets.text? octets with
  | some t => text t
  | none => binary (octets.toList.map fun c => c.toNat.toUInt8)

/-- What a file holds, with the replacement character for what is no text. -/
def shown : Content → String
  | text t => t
  | c => Octets.toText c.octets

end Content

/-- The rights on an entry, as twelve bits. -/
abbrev Mode : Type := Nat

/-- What an owner may do with an entry. -/
inductive Right
  | read
  | write
  /-- To run a file, or to go through a directory. -/
  | pass
deriving DecidableEq

/-- Whether a mode gives its owner a right. -/
def Mode.gives (mode : Mode) : Right → Bool
  | .read => Nat.testBit mode 8
  | .write => Nat.testBit mode 7
  | .pass => Nat.testBit mode 6

/-- The mode of a new file. -/
def fileMode : Mode := 0o644

/-- The mode of a new directory, and of a new program. -/
def passableMode : Mode := 0o755

/-- The mode of a directory whose entries cannot be changed. -/
def sealedMode : Mode := 0o555

/-- What stands at a place of a tree. -/
inductive Entry
  | directory (mode : Mode)
  | file (content : Content) (mode : Mode)
  /-- A symbolic link. It stands for the path that it holds, which starts from the
  directory of the link unless it starts from the root. -/
  | link (target : String)
deriving DecidableEq

/-- The mode of an entry. A link gives all rights; those of what it leads to count. -/
def Entry.mode : Entry → Mode
  | directory mode => mode
  | file _ mode => mode
  | link _ => 0o777

/-- An entry with another mode. -/
def Entry.withMode : Entry → Mode → Entry
  | directory _, mode => directory mode
  | file content _, mode => file content mode
  | link target, _ => link target

/-- Whether an entry is a directory. -/
def Entry.isDirectory : Entry → Bool
  | directory _ => true
  | _ => false

/-- The names from the root to a place. -/
abbrev Place : Type := List String

/-- **An entry with its places**, which are all names of the same thing. -/
structure Record where
  places : List Place
  entry : Entry

/-- Whether a place is a name of what is recorded. -/
def Record.isAt (record : Record) (place : Place) : Bool := record.places.contains place

/-- **A tree of files**, with the directory that relative paths start from. -/
structure FileTree where
  /-- What the tree holds. No place is in two records. -/
  records : List Record
  /-- The rights on the root, which has no record. -/
  rootMode : Mode
  workingDirectory : Place

namespace FileTree

/-- What stands at a place; the root is a directory. -/
def get? (t : FileTree) (place : Place) : Option Entry :=
  if place = [] then some (.directory t.rootMode)
  else (t.records.find? (·.isAt place)).map Record.entry

/-- All entries of a tree, each under all its names. -/
def listing (t : FileTree) : List (Place × Entry) :=
  t.records.flatMap fun record => record.places.map fun place => (place, record.entry)

/-- Keeps only some of the places; what is left without a name is gone. -/
def restrict (t : FileTree) (keep : Place → Bool) : FileTree :=
  { t with records := (t.records.map fun record =>
      { record with places := record.places.filter keep }).filter (!·.places.isEmpty) }

/-- Takes away the name of what stands at a place. -/
def erase (t : FileTree) (place : Place) : FileTree := t.restrict (· != place)

/-- Takes away what stands at a place and below it. -/
def eraseBelow (t : FileTree) (place : Place) : FileTree := t.restrict (!place.isPrefixOf ·)

/-- Puts something new at a place, instead of what stood there. -/
def put (t : FileTree) (place : Place) (entry : Entry) : FileTree :=
  { t with records := ⟨[place], entry⟩ :: (t.erase place).records }

/-- Changes what stands at a place, under all its names. -/
def alter (t : FileTree) (place : Place) (entry : Entry) : FileTree :=
  { t with records := t.records.map fun record =>
      if record.isAt place then { record with entry } else record }

/-- Gives what stands at a place another name, `goal`. -/
def addName (t : FileTree) (place goal : Place) : FileTree :=
  { t with records := (t.erase goal).records.map fun record =>
      if record.isAt place then { record with places := record.places ++ [goal] }
      else record }

/-- Moves what stands at a place and below it, instead of what stood at `goal`. -/
def move (t : FileTree) (place goal : Place) : FileTree :=
  { t with records := (t.erase goal).records.map fun record =>
      { record with places := record.places.map fun p =>
          if place.isPrefixOf p then goal ++ p.drop place.length else p } }

/-- The pieces of a path, first one first. -/
def steps (path : String) : List String := (Path.pieces path).reverse.map String.ofList

/-- Where walking a path begins. -/
def origin (t : FileTree) (path : String) : Place :=
  if Path.isAbsolute path then [] else t.workingDirectory

/-- The longest name, in bytes. -/
def nameLimit : Nat := 255

/-- Where the path that a link holds begins, for a link at a place. -/
def linkOrigin (place : Place) (target : String) : Place :=
  if Path.isAbsolute target then [] else place.dropLast

/-- How many links may be met on a path. -/
def linkLimit : Nat := 40

/-- **Walks steps from a place**, up to the next link. Each step needs a directory to
start from that may be passed; nothing needs to stand where the last one leads. At a
link the rest of the way is left to `enter`: the steps of the link, and then those that
remain. A link at the end is met only if the walk is to go `through` it. -/
def walkBy (t : FileTree) (through : Bool) (enter : Place → List String → Except FileError Place) :
    Place → List String → Except FileError Place
  | place, [] =>
    match t.get? place with
    | some (.link target) =>
      if !through then .ok place
      else if target = "" then .error .notFound
      else enter (linkOrigin place target) (steps target)
    | _ => .ok place
  | place, step :: rest =>
    match t.get? place with
    | none => .error .notFound
    | some (.file _ _) => .error .notDirectory
    | some (.link target) =>
      if target = "" then .error .notFound
      else enter (linkOrigin place target) (steps target ++ step :: rest)
    | some (.directory mode) =>
      if !mode.gives .pass then .error .accessDenied
      else if step = "" ∨ step = "." then walkBy t through enter place rest
      else if step = ".." then walkBy t through enter place.dropLast rest
      else if step.utf8ByteSize > nameLimit then .error .nameTooLong
      else walkBy t through enter (place ++ [step]) rest

/-- **Walks steps from a place**, with no more links on the way than a limit. -/
def walk (t : FileTree) (through : Bool) : Nat → Place → List String → Except FileError Place
  | 0 => t.walkBy through fun _ _ => .error .tooManyLinks
  | limit + 1 => t.walkBy through (walk t through limit)

/-- The place of the entry that a path names, which may be a link. -/
def locate (t : FileTree) (path : String) : Except FileError Place :=
  if path = "" then .error .notFound else t.walk false linkLimit (t.origin path) (steps path)

/-- **The place that a path leads to**, through a link at its end too. -/
def reach (t : FileTree) (path : String) : Except FileError Place :=
  if path = "" then .error .notFound else t.walk true linkLimit (t.origin path) (steps path)

/-- What stands at a place, which has to be something. -/
def entryAt (t : FileTree) (place : Place) : Except FileError (Place × Entry) :=
  match t.get? place with
  | some entry => .ok (place, entry)
  | none => .error .notFound

/-- The entry that a path names, which may be a link. -/
def look (t : FileTree) (path : String) : Except FileError (Place × Entry) := do
  t.entryAt (← t.locate path)

/-- What stands where a path leads. -/
def find (t : FileTree) (path : String) : Except FileError (Place × Entry) := do
  t.entryAt (← t.reach path)

/-- Whether a path leads to a file; a device is none. -/
def isFile (t : FileTree) (path : String) : Bool :=
  match t.find path with
  | .ok (_, .file content _) => content ≠ .device
  | _ => false

/-- Whether a path leads to a directory. -/
def isDirectory (t : FileTree) (path : String) : Bool :=
  match t.find path with
  | .ok (_, .directory _) => true
  | _ => false

/-- What the file at a path holds. -/
def readContent (t : FileTree) (path : String) : Except FileError Content := do
  match ← t.find path with
  | (_, .directory _) => .error .isDirectory
  | (_, .file content mode) => if mode.gives .read then .ok content else .error .accessDenied
  | (_, .link _) => .error .tooManyLinks

/-- **The text of a file.** -/
def readText (t : FileTree) (path : String) : Except FileError String := do
  match ← t.readContent path with
  | .binary _ => .error .notText
  | .text text => .ok text
  | .device => .ok ""

/-- Whether entries may be added to the directory at a place, and taken from
it. -/
def isOpen (t : FileTree) (place : Place) : Bool :=
  match t.get? place with
  | some (.directory mode) => mode.gives .write && mode.gives .pass
  | _ => false

/-- **Writes to the file that a path leads to**, under all its names. A new file has the
mode `new`; one that is there keeps its own. -/
def writeContent (t : FileTree) (path : String) (content : Content) (new : Mode) :
    Except FileError FileTree := do
  let place ← t.reach path
  match t.get? place with
  | some (.directory _) => .error .isDirectory
  | some (.link _) => .error .tooManyLinks
  | some (.file old mode) =>
    if mode.gives .write then .ok (t.alter place (.file (old.replacedBy content) mode))
    else .error .accessDenied
  | none =>
    if t.isOpen place.dropLast then .ok (t.put place (.file content new))
    else .error .accessDenied

/-- Writes a text to a file. -/
def writeText (t : FileTree) (path text : String) : Except FileError FileTree :=
  t.writeContent path (.text text) fileMode

/-- Makes one directory. A link at the end of the path is in its way, whatever it
leads to. -/
def createDirectory (t : FileTree) (path : String) (mode : Mode) : Except FileError FileTree := do
  if path = "" then .error .notFound
  else
    let trimmed := (steps path).reverse.dropWhile (· = "")
    let parent ← t.walk true linkLimit (t.origin path) trimmed.tail.reverse
    match t.get? parent with
    | none => .error .notFound
    | some (.file _ _) | some (.link _) => .error .notDirectory
    | some (.directory _) =>
      match trimmed.head? with
      | none | some "." | some ".." => .error .alreadyExists
      | some name =>
        if name.utf8ByteSize > nameLimit then .error .nameTooLong
        else if (t.get? (parent ++ [name])).isSome then .error .alreadyExists
        else if t.isOpen parent then .ok (t.put (parent ++ [name]) (.directory mode))
        else .error .accessDenied

/-- A path and the directories above it, up to `budget` of them. -/
def ancestors : Nat → String → List String
  | 0, _ => []
  | budget + 1, path =>
    match path, Path.parent? path with
    | "", _ => []
    | path, none => [path]
    | path, some up => path :: ancestors budget up

/-- Makes the first directory of a list, after the others if it needs them. A
directory that is there already will do. -/
def createChain (t : FileTree) : List String → Except FileError Unit × FileTree
  | [] => (.ok (), t)
  | path :: above =>
    match t.createDirectory path passableMode with
    | .ok t => (.ok (), t)
    | .error .notFound =>
      match createChain t above with
      | (.error e, t) => (.error e, t)
      | (.ok (), t) =>
        match t.createDirectory path passableMode with
        | .ok t => (.ok (), t)
        | .error e => (if t.isDirectory path then .ok () else .error e, t)
    | .error e => (if t.isDirectory path then .ok () else .error e, t)

/-- **Makes a directory and those above it.** -/
def createDirectories (t : FileTree) (path : String) : Except FileError Unit × FileTree :=
  t.createChain (ancestors (path.length + 1) path)

/-- A tree with nothing but the working directory and those above it. -/
def emptyAt (workingDirectory : Place) : FileTree where
  records := (List.range workingDirectory.length).map fun n =>
    ⟨[workingDirectory.take (n + 1)], .directory passableMode⟩
  rootMode := sealedMode
  workingDirectory := workingDirectory

/-- Makes the directories above a path, and a file there. -/
def addFile (t : FileTree) (path : String) (content : Content) : FileTree :=
  let t := (t.createDirectories (Path.directory path)).2
  match t.locate path with
  | .ok place => t.put place (.file content fileMode)
  | .error _ => t

/-- Makes a file executable. -/
def makeExecutable (t : FileTree) (path : String) : Except FileError FileTree := do
  let (place, entry) ← t.find path
  .ok (t.alter place (entry.withMode passableMode))

/-- The names of the entries of a directory, in the order of their bytes. -/
def children (t : FileTree) (place : Place) : List String :=
  let names := t.listing.filterMap fun (p, _) =>
    if p.dropLast = place ∧ p ≠ [] then p.getLast? else none
  names.mergeSort fun a b => Octets.ofText a ≤ Octets.ofText b

/-- What stands at a place and below it, with the names that lead there from
it. -/
def below (t : FileTree) (place : Place) : List (Place × Entry) :=
  t.listing.filterMap fun (p, entry) =>
    if place.isPrefixOf p then some (p.drop place.length, entry) else none

/-- The tree with `entries` put at a place and below it. -/
def graft (t : FileTree) (place : Place) (entries : List (Place × Entry)) : FileTree :=
  entries.foldl (fun t (p, entry) => t.put (place ++ p) entry) t

/-- The files below the working directory, by their relative paths. A link to a file
counts as one. -/
def files (t : FileTree) : List (String × Content × Mode) :=
  t.listing.filterMap fun (place, entry) =>
    if t.workingDirectory.isPrefixOf place then
      let path := "/".intercalate (place.drop t.workingDirectory.length)
      match entry, t.find path with
      | .file content mode, _ => some (path, content, mode)
      | .link _, .ok (_, .file content mode) => some (path, content, mode)
      | _, _ => none
    else none

/-- What the files below the working directory hold that are new or differ from
those in `before`. It cannot be told if one of them cannot be read. -/
def writtenSince (t before : FileTree) : Except FileError (List (String × String)) :=
  if t.files.all fun (_, _, mode) => mode.gives .read then
    let old := before.files.map fun (path, content, _) => (path, content)
    .ok (t.files.filterMap fun (path, content, _) =>
      if old.lookup path = some content then none else some (path, content.shown))
  else .error .accessDenied

end FileTree

end MapleCompiler
