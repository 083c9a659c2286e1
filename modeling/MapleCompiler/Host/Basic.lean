/-!
# Hosts

A `Host` is where the command line runs: it has files, can start programs and
has two streams for messages. What it does is an effect of the monad `m`, so a
host can be the machine at hand or a value that stands for one.

Whatever a host cannot do it says in words, which messages pass on.
-/

namespace MapleCompiler

/-- **How a program ended.** -/
inductive ExitState
  /-- It ended by itself with a code. -/
  | exited (code : Nat)
  /-- A signal ended it. -/
  | killed (signal : Nat)
deriving DecidableEq

namespace ExitState

/-- Whether a program did its work. -/
def isSuccess (s : ExitState) : Bool := s == exited 0

/-- The names of the signals, from number one. -/
def signalNames : List String :=
  ["HUP", "INT", "QUIT", "ILL", "TRAP", "ABRT", "BUS", "FPE", "KILL", "USR1", "SEGV", "USR2",
    "PIPE", "ALRM", "TERM", "STKFLT", "CHLD", "CONT", "STOP", "TSTP", "TTIN", "TTOU", "URG",
    "XCPU", "XFSZ", "VTALRM", "PROF", "WINCH", "IO", "PWR", "SYS"]

/-- The name of a signal. -/
def signalName? (signal : Nat) : Option String :=
  if signal = 0 then none else signalNames[signal - 1]?

/-- How a program ended, in words. -/
def display : ExitState → String
  | exited code => "exit status: " ++ toString code
  | killed signal =>
    let name := match signalName? signal with
      | some name => " (SIG" ++ name ++ ")"
      | none => ""
    "signal: " ++ toString signal ++ name

end ExitState

/-- **Where the command line runs.** -/
structure Host (m : Type → Type) where
  /-- The text of a file. -/
  readText : String → m (Except String String)
  /-- Whether a path leads to a file. -/
  isFile : String → m Bool
  /-- Makes a directory and those above it, unless they are there. -/
  createDirectories : String → m (Except String Unit)
  /-- Writes a file, which may be new. -/
  writeText : String → String → m (Except String Unit)
  /-- Runs a program to its end. -/
  launch : String → List String → m (Except String ExitState)
  /-- Writes to the stream for results. -/
  print : String → m Unit
  /-- Writes to the stream for messages. -/
  complain : String → m Unit
  /-- The host has no more files than this. -/
  fileBound : m Nat

end MapleCompiler
