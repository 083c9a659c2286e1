import MapleCompiler.Host.Basic
import MapleCompiler.Host.Machine

/-!
# A machine as a host

The command line runs on a machine as on any host: `Machine.host` reads and
writes its files and collects what is written to its streams. What happens when a
program is launched is not for a machine to say, since that depends on the program;
it is a parameter of the host.
-/

namespace MapleCompiler.Machine

/-- What a failure on files says. -/
def told {α : Type} : Except FileError α → Except String α
  | .ok a => .ok a
  | .error e => .error e.message

/-- What launching a program with some arguments does to a machine. -/
abbrev Launcher : Type := String → List String → StateM Machine (Except String ExitState)

/-- **The host that a machine is**, given what launched programs do. -/
def host (launch : Launcher) : Host (StateM Machine) where
  readText path := return told ((← get).tree.readText path)
  isFile path := return (← get).tree.isFile path
  createDirectories path := modifyGet fun machine =>
    let (result, tree) := machine.tree.createDirectories path
    (told result, { machine with tree })
  writeText path text := modifyGet fun machine =>
    match machine.tree.writeText path text with
    | .ok tree => (.ok (), { machine with tree })
    | .error e => (.error e.message, machine)
  launch := launch
  print text := modify (·.print text)
  complain text := modify (·.complain text)
  fileBound := return (← get).tree.listing.length

end MapleCompiler.Machine
