import MapleCompiler.Host.Basic
import MapleCompiler.Host.Machine
import MapleCompiler.Host.Script.Reader

/-!
# Running scripts: the session

A `Session` is a machine with its open channels and the process that runs on
it at the moment. A `Shell` is what a process that runs a script has of its
own: parameters, variables, functions, its directory and its descriptors. The
channels that descriptors lead to are shared, so that a program which reads a
line of a file leaves the next line to the one after it.

`Sh` is a step of a running process. It may end the process, or leave the loop
or function that the step stands in; `Stop` says which.
-/

namespace MapleCompiler.Script

/-- Where bytes are read from and written to. -/
inductive Channel
  | results
  | messages
  /-- Nothing can be read, and what is written is gone. -/
  | nothing
  /-- What was written can be read once. -/
  | pipe (waiting : String)
  | file (place : Place) (offset : Nat) (mode : OpenMode)

/-- A variable; one without a value is known but not set. -/
structure Variable where
  value? : Option String
  /-- Whether programs are given it. -/
  exported : Bool
  readOnly : Bool

/-- **A process that runs a script.** -/
structure Shell where
  name : String
  /-- The number that it knows itself by, which parts of it that run apart
  share. -/
  process : Nat
  /-- Its number among all processes. -/
  identity : Nat
  parameters : List String := []
  /-- Its variables, the last one that was new first. -/
  vars : List (String × Variable)
  functions : List (String × Command) := []
  /-- Variables to bring back at the end of each function that runs. -/
  frames : List (List (String × Option Variable)) := []
  aliases : List (String × String) := []
  /-- Names of programs that were found, with their paths. -/
  tracked : List (String × String) := []
  options : List Char := []
  /-- The code of the last command. -/
  status : Nat := 0
  /-- The code of the last command in a word. -/
  substituted : Nat := 0
  directory : Place
  descriptors : List (Nat × Nat)
  /-- What to do at a signal, by its number; zero is the end of the process. -/
  traps : List (Nat × String) := []
  /-- Signals that came and were not dealt with. -/
  signals : List Nat := []
  /-- The line of the command that runs. -/
  line : Nat := 0
  lineRead : Nat := 0
  /-- The built-in command that runs. -/
  running? : Option String := none
  /-- How many loops are around the command that runs. -/
  loops : Nat := 0
  /-- The bits that new files do not get. -/
  mask : Nat
  /-- The number of the last process in the background. -/
  lastJob? : Option Nat := none
  /-- How the processes in the background ended. -/
  jobs : List (Nat × ExitState) := []
  /-- The argument in which options are read next, from one. -/
  optionIndex : Nat := 1
  /-- Where reading options stands inside the argument before; zero if it is
  done. -/
  optionOffset : Nat := 0

/-- **A machine with what runs on it.** -/
structure Session where
  machine : Machine
  channels : Array Channel
  documents : Array Word
  nextProcess : Nat
  /-- Whether something was written where nothing can be written. -/
  lost : Bool
  /-- The processes that wait for the one that runs, nearest one first. -/
  parents : List Shell
  shell : Shell

/-- Why a step does not go on. -/
inductive Stop
  /-- The process ends. -/
  | exit (status : Nat)
  /-- A fault that was told about ends the process, unless it is caught. -/
  | fault (status : Nat)
  | killed (process signal : Nat)
  /-- Some loops are left. -/
  | leave (levels : Nat)
  /-- A loop is gone on with, after those inside of it are left. -/
  | goOn (levels : Nat)
  /-- A function is left. -/
  | giveBack
  /-- The budget is used up. -/
  | exhausted

/-- **A step of a running process.** -/
abbrev Sh (α : Type) : Type := EStateM Stop Session α

namespace Sh

def shell : Sh Shell := return (← get).shell

def modifyShell (f : Shell → Shell) : Sh Unit := modify fun s => { s with shell := f s.shell }

def finish (status : Nat) : Sh Unit := modifyShell fun s => { s with status }

def hasOption (letter : Char) : Sh Bool := return (← shell).options.contains letter

/-- Does something, and something else after it even if it stops. -/
def ensure {α : Type} (action : Sh α) (afterwards : Sh Unit) : Sh α := do
  let a ← tryCatch action fun stop => do
    afterwards
    throw stop
  afterwards
  return a

/-! ## Files -/

def tree : Sh FileTree := do
  let s ← get
  return { s.machine.tree with workingDirectory := s.shell.directory }

def setTree (tree : FileTree) : Sh Unit := modify fun s =>
  { s with machine.tree :=
      { tree with workingDirectory := s.machine.tree.workingDirectory } }

def newMode (mode : Mode) : Sh Mode := do
  let mask := (← shell).mask
  return mode - (mode &&& mask)

def find (path : String) : Sh (Except FileError (Place × Entry)) :=
  return (← tree).find (Octets.toText path)

def look (path : String) : Sh (Except FileError (Place × Entry)) :=
  return (← tree).look (Octets.toText path)

def readFile (path : String) : Sh (Except FileError String) := do
  match (← tree).readContent (Octets.toText path) with
  | .ok content => return .ok content.octets
  | .error e => return .error e

def writeFile (path octets : String) : Sh (Except FileError Unit) := do
  match (← tree).writeContent (Octets.toText path) (.ofOctets octets) (← newMode 0o666) with
  | .ok tree =>
    setTree tree
    return .ok ()
  | .error e => return .error e

/-! ## Channels -/

def channelOf? (descriptor : Nat) : Sh (Option Nat) :=
  return (← shell).descriptors.lookup descriptor

def addChannel (channel : Channel) : Sh Nat := do
  let s ← get
  set { s with channels := s.channels.push channel }
  return s.channels.size

def setChannel (number : Nat) (channel : Channel) : Sh Unit := modify fun s =>
  { s with channels := s.channels.setIfInBounds number channel }

/-- Makes a descriptor lead to a channel, or to none. -/
def setDescriptor (descriptor : Nat) (channel? : Option Nat) : Sh Unit := modifyShell fun s =>
  let others := s.descriptors.filter (·.1 != descriptor)
  { s with descriptors := match channel? with
      | some channel => (descriptor, channel) :: others
      | none => others }

def overwrite (old : String) (offset : Nat) (text : String) : String :=
  let chars := old.toList
  let gap := List.replicate (offset - chars.length) '\x00'
  String.ofList (chars.take offset ++ gap) ++ text ++
    String.ofList (chars.drop (offset + text.length))

def writeChannel (number : Nat) (text : String) : Sh Unit := do
  let s ← get
  match s.channels[number]? with
  | some .results => set { s with machine.results := s.machine.results ++ text }
  | some .messages => set { s with machine.messages := s.machine.messages ++ text }
  | some (.pipe waiting) => setChannel number (.pipe (waiting ++ text))
  | some (.file place offset how) =>
    match s.machine.tree.get? place with
    | some (.file content mode) =>
      let old := content.octets
      let start := if how = .append then old.length else offset
      let new := if start = old.length then old ++ text else overwrite old start text
      let written := .file (content.replacedBy (.ofOctets new)) mode
      set { s with machine.tree := s.machine.tree.alter place written }
      setChannel number (.file place (start + text.length) how)
    | _ => pure ()
  | _ => pure ()

def outlet? (descriptor : Nat) : Sh (Option Nat) := do
  let s ← get
  return (s.shell.descriptors.lookup descriptor).filter fun n =>
    match s.channels[n]? with
    | some (.file _ _ .read) => false
    | _ => true

def print (text : String) : Sh Unit := do
  match ← outlet? 1 with
  | some channel => writeChannel channel text
  | none => if text ≠ "" then modify fun s => { s with lost := true }

def complain (text : String) : Sh Unit := do
  match ← outlet? 2 with
  | some channel => writeChannel channel text
  | none => pure ()

/-- What can be read from a descriptor; none if nothing is open for it. -/
def waiting? (descriptor : Nat) : Sh (Option String) := do
  let s ← get
  match (s.shell.descriptors.lookup descriptor).bind fun n => s.channels[n]? with
  | none | some .results | some .messages => return none
  | some .nothing => return some ""
  | some (.pipe waiting) => return some waiting
  | some (.file place offset how) =>
    if how != .read && how != .both then return none
    match s.machine.tree.get? place with
    | some (.file content _) =>
      let octets := content.octets
      return some (if offset = 0 then octets else String.ofList (octets.toList.drop offset))
    | _ => return some ""

/-- Takes the first bytes of what can be read from a descriptor. -/
def consume (descriptor count : Nat) : Sh Unit := do
  let s ← get
  match s.shell.descriptors.lookup descriptor with
  | none => pure ()
  | some number =>
    match s.channels[number]? with
    | some (.pipe waiting) =>
      setChannel number (.pipe (String.ofList (waiting.toList.drop count)))
    | some (.file place offset how) => setChannel number (.file place (offset + count) how)
    | _ => pure ()

def input : Sh String := do
  let text := (← waiting? 0).getD ""
  consume 0 text.length
  return text

def streamPath? (path : String) : Sh (Option (Option Nat)) := do
  match path with
  | "/dev/null" | "/dev/zero" => return some (some (← addChannel .nothing))
  | "/dev/stdin" | "/dev/fd/0" => return some (← channelOf? 0)
  | "/dev/stdout" | "/dev/fd/1" => return some (← channelOf? 1)
  | "/dev/stderr" | "/dev/fd/2" => return some (← channelOf? 2)
  | _ => return none

/-- **Opens a file for reading or writing.** -/
def openPath (path : String) (mode : OpenMode) : Sh (Except FileError Nat) := do
  match ← streamPath? path with
  | some (some channel) => return .ok channel
  | some none => return .error .notFound
  | none =>
    let tree ← tree
    match tree.reach (Octets.toText path) with
    | .error e => return .error e
    | .ok place =>
      let writes := mode != .read
      match tree.get? place with
      | some (.directory _) =>
        if writes then return .error .isDirectory
        else return .ok (← addChannel (.file place 0 mode))
      | some (.link _) => return .error .tooManyLinks
      | some (.file old rights) =>
        if writes && !rights.gives .write || (!writes || mode == .both) && !rights.gives .read then
          return .error .accessDenied
        else if mode == .write && (← hasOption 'C') then return .error .alreadyExists
        else
          if mode == .write || mode == .overwrite then
            setTree (tree.alter place (.file (old.replacedBy (.text "")) rights))
          return .ok (← addChannel (.file place 0 mode))
      | none =>
        if !writes then return .error .notFound
        else if !tree.isOpen place.dropLast then
          return .error (if (tree.get? place.dropLast).isSome then .accessDenied else .notFound)
        else
          setTree (tree.put place (.file (.text "") (← newMode 0o666)))
          return .ok (← addChannel (.file place 0 mode))

/-! ## Faults -/

def warn (message : String) : Sh Unit := do
  let s ← shell
  let command := match s.running? with
    | some name => name ++ ": "
    | none => ""
  complain (s.name ++ ": " ++ toString s.line ++ ": " ++ command ++ message ++ "\n")

/-- Says what is wrong with the command that runs, and stops. -/
def fail {α : Type} (message : String) (status : Nat) : Sh α := do
  warn message
  finish status
  throw (.fault status)

/-- Says that a script cannot be read on from where reading it stands, and stops. -/
def failReading {α : Type} (message : String) : Sh α := do
  modifyShell fun s => { s with line := s.lineRead }
  fail ("Syntax error: " ++ message) 2

/-! ## Variables -/

def known? (name : String) : Sh (Option Variable) := return (← shell).vars.lookup name

def value? (name : String) : Sh (Option String) := return (← known? name).bind (·.value?)

def setVariable (name : String) (known? : Option Variable) : Sh Unit := modifyShell fun s =>
  let vars := match known? with
    | none => s.vars.filter (·.1 != name)
    | some v =>
      if (s.vars.lookup name).isSome then
        s.vars.map fun (other, old) => (other, if other == name then v else old)
      else (name, v) :: s.vars
  { s with vars, tracked := if name = "PATH" then [] else s.tracked }

/-- **Gives a variable a value.** -/
def assign (name value : String) : Sh Unit := do
  let old ← known? name
  if old.any (·.readOnly) then fail (name ++ ": is read only") 2
  let exported := old.any (·.exported) || (← hasOption 'a')
  setVariable name (some ⟨some value, exported, false⟩)
  if name = "OPTIND" then
    modifyShell fun s => { s with optionIndex := value.toNat?.getD 1, optionOffset := 0 }

def row (rows : Nat) (name : String) : Nat :=
  let codes := name.toList.map Char.toNat
  codes.foldl (· + ·) (16 * codes.headD 0) % rows

/-- The variables that programs are given. A script passes them on row by row of
the table that it keeps them in. -/
def environment : Sh (List (String × String)) := do
  let given := (← shell).vars.reverse.filterMap fun (name, v) =>
    if v.exported then v.value?.map fun value => (name, value) else none
  return given.mergeSort fun a b => row 39 a.1 ≤ row 39 b.1

def separators : Sh (List Char) := do
  match ← known? "IFS" with
  | some ⟨some value, _, _⟩ => return value.toList
  | _ => return [' ', '\t', '\n']

end Sh

end MapleCompiler.Script
