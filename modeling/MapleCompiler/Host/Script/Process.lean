import MapleCompiler.Host.Script.Session

/-!
# Processes

A process runs inside another one, which waits for it: `Sh.inProcess` puts the
waiting process aside and brings it back when the other has ended, by itself or
by a signal. A part of a script that runs apart is such a process, which begins
with a copy of what the script has (`Sh.apart`).

Running commands takes steps that call each other. What a step needs of the
others is in `Hooks`, so that each can be said by itself; how they are tied
together, and why they come to an end, is said where commands are run.
-/

namespace MapleCompiler

/-- The code by which a process sees how another one ended. -/
def ExitState.code : ExitState → Nat
  | exited code => code
  | killed signal => 128 + signal

/-- What signals are called when they end a process, from number one. -/
def ExitState.signalTexts : List String :=
  ["Hangup", "Interrupt", "Quit", "Illegal instruction", "Trace/breakpoint trap", "Aborted",
    "Bus error", "Floating point exception", "Killed", "User defined signal 1",
    "Segmentation fault", "User defined signal 2", "Broken pipe", "Alarm clock", "Terminated",
    "Stack fault", "Child exited", "Continued", "Stopped (signal)", "Stopped",
    "Stopped (tty input)", "Stopped (tty output)", "Urgent I/O condition",
    "CPU time limit exceeded", "File size limit exceeded", "Virtual timer expired",
    "Profiling timer expired", "Window changed", "I/O possible", "Power failure",
    "Bad system call"]

def ExitState.signalText (signal : Nat) : String :=
  match signalTexts[signal - 1]? with
  | some text => text
  | none =>
    if signal < 34 then "Unknown signal " ++ toString signal
    else "Real-time signal " ++ toString (signal - 34)

end MapleCompiler

namespace MapleCompiler.Script

/-- **What steps of running commands need of each other.** -/
structure Hooks where
  /-- Runs a command. One that is tested may fail without ending the process. -/
  run : (tested : Bool) → Command → Sh Unit
  /-- Goes on with a loop as long as its test succeeds, or fails; `status` is
  the code of its body so far. -/
  cycle : (tested goOn : Bool) → (test body : Command) → (status : Nat) → Sh Unit
  /-- Runs the commands of a text that are left, after some of it or none. -/
  proceed : (tested any : Bool) → Input → Sh Unit
  start : (program : String) → (arguments : List String) → Sh Unit

namespace Sh

/-! ## Signals -/

/-- The signals that do nothing unless something is asked for at them. -/
def idleSignals : List Nat := [0, 17, 18, 19, 20, 21, 22, 23, 28]

/-- Sends a signal to a process that waits or runs. Gives whether there is such
a process. -/
def signal (process number : Nat) : Sh Bool := do
  let s ← get
  match (s.shell :: s.parents).find? (·.identity == process) with
  | none => return false
  | some target =>
    if number ≠ 0 then
      match if number = 9 then none else target.traps.lookup number with
      | some "" => pure ()
      | some _ =>
        let note (shell : Shell) : Shell :=
          if shell.identity == process && !shell.signals.contains number then
            { shell with signals := shell.signals ++ [number] }
          else shell
        set { s with shell := note s.shell, parents := s.parents.map note }
      | none => if !idleSignals.contains number then throw (.killed process number)
    return true

/-! ## One process inside another -/

/-- **Runs something as a process of its own** and waits for its end. -/
def inProcess (child : Shell) (action : Sh Unit) : Sh ExitState := do
  let s ← get
  let identity := s.nextProcess
  set { s with
    nextProcess := identity + 1
    parents := s.shell :: s.parents
    shell := { child with identity } }
  let outcome : Except Stop ExitState ← tryCatch
    (do
      action
      return .ok (.exited ((← shell).status % 256)))
    fun
      | .exit status => return .ok (.exited (status % 256))
      | .fault status => return .ok (.exited (status % 256))
      | .killed process signal =>
        if process = identity then return .ok (.killed signal)
        else return .error (.killed process signal)
      | .exhausted => return .error .exhausted
      | _ => return .ok (.exited ((← shell).status % 256))
  modify fun s =>
    match s.parents with
    | parent :: rest => { s with shell := parent, parents := rest }
    | [] => s
  match outcome with
  | .ok ended => return ended
  | .error stop => throw stop

/-- The code of a process that was waited for. A process that a signal ended is
told about. -/
def waited (ended : ExitState) : Sh Nat := do
  match ended with
  | .killed signal =>
    if signal ≠ 2 ∧ signal ≠ 13 then complain (ExitState.signalText signal ++ "\n")
  | .exited _ => pure ()
  return ended.code

def evaluate (hooks : Hooks) (tested : Bool) (text : String) : Sh Unit := do
  let lineRead := (← shell).lineRead
  hooks.proceed tested false (.ofText text #[] [])
  modifyShell fun s => { s with lineRead }

def handleSignals (hooks : Hooks) : Sh Unit := do
  let s ← shell
  if !s.signals.isEmpty then
    modifyShell fun s => { s with signals := [] }
    s.signals.forM fun number => do
      match (← shell).traps.lookup number with
      | some text =>
        let status := (← shell).status
        evaluate hooks false text
        finish status
      | none => pure ()

def atEnd (hooks : Hooks) : Sh Unit := do
  let s ← shell
  match s.traps.lookup 0 with
  | none => pure ()
  | some text =>
    modifyShell fun s => { s with traps := s.traps.filter (·.1 != 0) }
    tryCatch
      (do
        evaluate hooks false text
        finish s.status)
      fun
        | .exit status => finish status
        | .fault _ => finish s.status
        | .killed process signal => throw (.killed process signal)
        | .exhausted => throw .exhausted
        | _ => finish s.status

def lifetime (hooks : Hooks) (action : Sh Unit) : Sh Unit := do
  tryCatch action fun
    | .exit status => finish status
    | .fault status => finish status
    | .killed process signal => throw (.killed process signal)
    | .exhausted => throw .exhausted
    | _ => pure ()
  atEnd hooks

/-- **Runs a part of a script apart from the rest.** -/
def apart (hooks : Hooks) (action : Sh Unit) : Sh ExitState := do
  let s ← shell
  inProcess
    { s with traps := s.traps.filter (·.2 == ""), signals := [], loops := 0, jobs := [] }
    (lifetime hooks action)

def output (hooks : Hooks) (command : Command) : Sh String := do
  let channel ← addChannel (.pipe "")
  let ended ← apart hooks do
    setDescriptor 1 (some channel)
    hooks.run false command
  let status ← waited ended
  modifyShell fun s => { s with substituted := status }
  match (← get).channels[channel]? with
  | some (.pipe text) =>
    setChannel channel .nothing
    return text
  | _ => return ""

end Sh

end MapleCompiler.Script
