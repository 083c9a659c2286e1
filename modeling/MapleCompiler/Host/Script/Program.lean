import MapleCompiler.Host.Script.Process

/-!
# Programs

A program is an executable file. It is one of those that a machine comes with,
whose files hold a mark and the program's name, or a script whose first line
names the program that is to run it. `Program.resolve` follows those names and
`Sh.findProgram` looks a name up in the directories of `PATH`.
-/

namespace MapleCompiler

/-- Why a program does not start, in words. -/
def FileError.startReason : FileError → String
  | .notFound => "not found"
  | .notDirectory => "not found"
  | e => e.reason

def FileError.startStatus : FileError → Nat
  | .notFound => 127
  | .notDirectory => 127
  | .nameTooLong => 127
  | .tooManyLinks => 127
  | _ => 126

end MapleCompiler

namespace MapleCompiler.Script

namespace Program

/-- What stands at the front of the file of a program that is not a script. -/
def mark : String := "\x7fELF"

def file (name : String) : Entry := .file (.ofOctets (mark ++ name)) passableMode

def compilerName : String := "maplec"

/-- The number of the process that launches programs, which is a compiler's. -/
def compilerProcess : Nat := 2

/-- How much of a script is looked at for the program that is to run it. -/
def firstLineLimit : Nat := 255

/-- The program and its argument that the first line of a script names. -/
def interpreter? (line : List Char) : Option (String × List String) :=
  let isGap (c : Char) : Bool := c == ' ' || c == '\t'
  let trimmed := (line.dropWhile isGap).reverse.dropWhile isGap |>.reverse
  let name := trimmed.takeWhile (!isGap ·)
  let argument := (trimmed.drop name.length).dropWhile isGap
  if name = [] then none
  else some (String.ofList name, if argument = [] then [] else [String.ofList argument])

/-- **The program that runs when the file at a path is started** with its name
and arguments. A script may name another script, up to a depth. -/
def resolve (tree : FileTree) : Nat → String → List String → Except FileError (String × List String)
  | 0, _, _ => .error .tooManyLinks
  | depth + 1, path, arguments => do
    match ← tree.find (Octets.toText path) with
    | (_, .directory _) => .error .accessDenied
    | (_, .link _) => .error .tooManyLinks
    | (_, .file content mode) =>
      let octets := content.octets
      if !mode.gives .pass then .error .accessDenied
      else if octets.startsWith mark then
        let name := octets.toList.drop mark.length
        if name = [] then .error .badFormat else .ok (String.ofList name, arguments)
      else
        match octets.toList with
        | '#' :: '!' :: rest =>
          match interpreter? ((rest.take firstLineLimit).takeWhile (· != '\n')) with
          | none => .error .badFormat
          | some (name, given) => resolve tree depth name (name :: given ++ path :: arguments.tail)
        | _ => .error .badFormat

/-- How many scripts may name each other. -/
def scriptDepth : Nat := 6

/-- The program that runs when a script starts the file at a path. A file that
is no program is read as a script. -/
def resolveOrRead (tree : FileTree) (path : String) (arguments : List String) :
    Except FileError (String × List String) :=
  match resolve tree scriptDepth path arguments with
  | .error .badFormat => .ok ("sh", "/bin/sh" :: path :: arguments.tail)
  | result => result

/-- The paths that a name may stand for, given the directories to search. -/
def candidates (name directories : String) : List String :=
  if name.toList.contains '/' then [name]
  else (directories.splitOn ":").map fun directory =>
    if directory = "" then name else directory ++ "/" ++ name

/-- The directories that a program searches others in, given its environment. -/
def searched (environment : List (String × String)) : String :=
  (environment.lookup "PATH").getD "/bin:/usr/bin"

/-- The first of some paths that leads to a file, best to one that can be
run. -/
def choose (tree : FileTree) (paths : List String) : Except FileError String :=
  let find (path : String) : Except FileError (Place × Entry) := tree.find (Octets.toText path)
  let isFile (test : Mode → Bool) (path : String) : Bool :=
    match find path with
    | .ok (_, .file _ mode) => test mode
    | _ => false
  match paths.find? (isFile (·.gives .pass)), paths.find? (isFile fun _ => true) with
  | some path, _ => .ok path
  | none, some path => .ok path
  | none, none =>
    let faults := paths.filterMap fun path => match find path with
      | .ok _ => some FileError.accessDenied
      | .error .notFound => none
      | .error .notDirectory => none
      | .error e => some e
    .error (faults.getLast?.getD .notFound)

end Program

/-- A process at the start of a program: all that is left is what programs pass
on. -/
def Shell.renewed (s : Shell) (name : String) (environment : List (String × String)) : Shell :=
  { name
    process := s.process
    identity := s.identity
    vars := environment.map fun (name, value) => (name, ⟨some value, true, false⟩)
    directory := s.directory
    descriptors := s.descriptors
    traps := s.traps.filter (·.2 == "")
    mask := s.mask }

namespace Sh

def searchPath : Sh String := return (← value? "PATH").getD ""

def findProgram (directories name : String) : Sh (Except FileError String) := do
  if name.toList.contains '/' then return .ok name
  else return Program.choose (← tree) (Program.candidates name directories)

def track (name path : String) : Sh Unit := modifyShell fun s =>
  if name.toList.contains '/' || (s.tracked.lookup name).isSome then s
  else { s with tracked := s.tracked ++ [(name, path)] }

/-- Looks a program up, and keeps its path in mind. -/
def locate (name : String) : Sh (Except FileError String) := do
  let found ← findProgram (← searchPath) name
  match found with
  | .ok path => track name path
  | .error _ => pure ()
  return found

def program (directories : String) (arguments : List String) :
    Sh (Except FileError (String × List String)) := do
  match ← findProgram directories (arguments.headD "") with
  | .error e => return .error e
  | .ok path => return Program.resolveOrRead (← tree) path arguments

/-- Goes on as another program, if it can be started. -/
def become (hooks : Hooks) (directories : String) (environment : List (String × String))
    (arguments : List String) : Sh (Except FileError Unit) := do
  match ← program directories arguments with
  | .error e => return .error e
  | .ok (name, arguments) =>
    modifyShell fun s => s.renewed (arguments.headD "") environment
    hooks.start name arguments.tail
    return .ok ()

/-- **Starts a program as a process of its own**, if it can be started. -/
def launch (hooks : Hooks) (directories : String) (environment : List (String × String))
    (arguments : List String) : Sh (Except FileError ExitState) := do
  match ← program directories arguments with
  | .error e => return .error e
  | .ok (name, arguments) =>
    let child := (← shell).renewed (arguments.headD "") environment
    return .ok (← inProcess child (hooks.start name arguments.tail))

end Sh

end MapleCompiler.Script
