import MapleCompiler.Command.Run
import MapleCompiler.Host.Simulated
import MapleCompiler.Host.Tool.All

/-!
# Launching programs

`Machine.launch` runs a program on a machine to its end. It is one launcher among
others, for machines that come with the usual programs; nothing that is proved of the
command line depends on it.

The steps of running commands are tied together here: each gets the others with one
unit less of a budget, so a script that would run forever is cut off. Among the
programs is the compiler itself, as the program of the process that launched the
others. A compiler that is started by what another one launched can launch programs
in its turn, up to a depth.
-/

namespace MapleCompiler

namespace Script

/-- The compiler as a program of a machine. -/
def compiler (launch : Machine.Launcher) : Tool := fun _ arguments => do
  let environment := (← Sh.environment).map fun (name, value) =>
    (Octets.toText name, Octets.toText value)
  let coloured := (environment.lookup "CLICOLOR_FORCE").isSome
  let run := Command.run (Machine.host launch) coloured (arguments.map Octets.toText)
  let (status, after) := run.run (.ofTree (← Sh.tree) environment)
  Sh.setTree after.tree
  Sh.print after.results
  Sh.complain after.messages
  return status

/-- Goes on as one of the programs of a machine. -/
def startTool (launch : Machine.Launcher) (hooks : Hooks) (program : String)
    (arguments : List String) : Sh Unit := do
  match ((Program.compilerName, compiler launch) :: Tool.all).lookup program with
  | some tool =>
    modify fun s => { s with lost := false }
    let status ← tool hooks arguments
    if (← get).lost then
      let (messages, status) := Tool.lostOutput program
      messages.forM Tool.say
      modify fun s => { s with lost := false }
      Sh.finish status
    else Sh.finish status
  | none => Sh.finish 126

/-- **The steps of running commands, within a budget.** -/
def hooks (launch : Machine.Launcher) : Nat → Hooks
  | 0 =>
    { run := fun _ _ => throw .exhausted
      cycle := fun _ _ _ _ _ => throw .exhausted
      proceed := fun _ _ _ => throw .exhausted
      start := fun _ _ => throw .exhausted }
  | budget + 1 =>
    { run := fun tested command => Sh.runCommand (hooks launch budget) tested command
      cycle := fun tested goOn test body status =>
        Sh.turn (hooks launch budget) tested goOn test body status
      proceed := fun tested any input => Sh.runText (hooks launch budget) tested any input
      start := fun program arguments => startTool launch (hooks launch budget) program arguments }

/-- How many steps may be inside of each other or follow each other. -/
def stepLimit : Nat := 200000

/-- The process that launches programs for a machine. -/
def launcher (machine : Machine) : Shell :=
  { name := ""
    process := Program.compilerProcess
    identity := Program.compilerProcess
    vars := machine.environment.map fun (name, value) =>
      (Octets.ofText name, ⟨some (Octets.ofText value), true, false⟩)
    directory := machine.tree.workingDirectory
    descriptors := [(0, 0), (1, 1), (2, 2)]
    mask := 0o022 }

/-- A machine with its launcher, before anything runs. -/
def Session.ofMachine (machine : Machine) : Session :=
  { machine
    channels := #[.nothing, .results, .messages]
    documents := #[]
    nextProcess := 100
    lost := false
    parents := []
    shell := launcher machine }

/-- What starts the first of some paths that can be started; a right that is
missing is told about only if nothing else is found. -/
def startAmong (tree : FileTree) (words : List String) :
    List String → FileError → Except FileError (String × List String)
  | [], e => .error e
  | path :: rest, e =>
    match Program.resolve tree Program.scriptDepth path words with
    | .ok found => .ok found
    | .error .notFound => startAmong tree words rest e
    | .error .notDirectory => startAmong tree words rest e
    | .error .accessDenied => startAmong tree words rest .accessDenied
    | .error other => .error other

/-- The program that a machine starts for a name. A name without a slash is
searched for; whatever stands there has to be a program. -/
def startOf (tree : FileTree) (directories : String) (words : List String) :
    Except FileError (String × List String) :=
  let name := words.headD ""
  if name.toList.contains '/' then Program.resolve tree Program.scriptDepth name words
  else if name = "" then .error .notFound
  else startAmong tree words (Program.candidates name directories) .notFound

end Script

namespace Machine

/-- How deep compilers may be in programs that compilers launch. -/
def launchDepth : Nat := 3

/-- Runs a program to its end on a machine, with compilers up to a depth. -/
def launchWithin : Nat → Launcher
  | 0, _, _ => return .error FileError.notFound.message
  | depth + 1, program, arguments => modifyGet fun machine =>
    let words := (program :: arguments).map Octets.ofText
    let session := Script.Session.ofMachine machine
    let directories := (machine.environment.lookup "PATH").getD Script.defaultPath
    match Script.startOf machine.tree directories words with
    | .error e => (.error e.message, machine)
    | .ok (tool, words) =>
      let child := session.shell.renewed (words.headD "") (machine.environment.map fun (n, v) =>
        (Octets.ofText n, Octets.ofText v))
      let hooks := Script.hooks (launchWithin depth) Script.stepLimit
      match (Script.Sh.inProcess child (hooks.start tool words.tail)).run session with
      | .ok ended s => (.ok ended, s.machine)
      | .error _ s => (.ok (.exited 1), s.machine)

/-- **Runs a program to its end on a machine.** -/
def launch : Launcher := launchWithin launchDepth

end Machine

end MapleCompiler
