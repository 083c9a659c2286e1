import MapleCompiler.Host.Script.Builtin.Condition
import MapleCompiler.Host.Script.Builtin.Stream
import MapleCompiler.Host.Script.Expansion
import MapleCompiler.Host.Script.Program
import MapleCompiler.Host.Tool.Mode

/-!
# Running commands

Each form of command is run by one definition here, which gets the running of
its parts from `Hooks`. A simple command is expanded, redirected and given its
assignments, and is then a function, a built-in command or a program.

A process with the option `e` ends when a command fails, unless the command is
tested: it stands in a condition, before `&&` or `||`, or after `!`.
-/

namespace MapleCompiler.Script

namespace Sh

/-! ## Redirections -/

/-- Why a file cannot be opened, in words. -/
def openReason (mode : OpenMode) (e : FileError) : String :=
  match e with
  | .notFound | .notDirectory => if mode = .read then "No such file" else "Directory nonexistent"
  | e => e.reason

def redirectFile (descriptor : Nat) (mode : OpenMode) (name : String) : Sh Unit := do
  match ← openPath name mode with
  | .ok channel => setDescriptor descriptor (some channel)
  | .error e =>
    let verb := if mode = .read then "open" else "create"
    fail ("cannot " ++ verb ++ " " ++ name ++ ": " ++ openReason mode e) 2

def redirectShare (descriptor : Nat) (source : String) : Sh Unit := do
  match source.toList with
  | ['-'] => setDescriptor descriptor none
  | [c] =>
    if c.isDigit then
      match ← channelOf? (digitValue c) with
      | some channel => setDescriptor descriptor (some channel)
      | none => fail (source ++ ": Bad file descriptor") 2
    else failReading "Bad fd number"
  | _ => failReading "Bad fd number"

/-- A redirection whose words are replaced. -/
inductive Opening
  | file (descriptor : Nat) (mode : OpenMode) (name : String)
  | share (descriptor : Nat) (source : String)
  | document (descriptor : Nat) (word : Word)

def opening (hooks : Hooks) : Redirect → Sh Opening
  | .file descriptor mode name => return .file descriptor mode (← wordText hooks name)
  | .share descriptor source => do
    let text ← wordText hooks source
    if text ≠ "-" ∧ !(text.length = 1 ∧ text.toList.all Char.isDigit) then
      failReading "Bad fd number"
    return .share descriptor text
  | .document descriptor index => do
    return .document descriptor ((← get).documents[index]?.getD [])

def perform (hooks : Hooks) : Opening → Sh Unit
  | .file descriptor mode name => redirectFile descriptor mode name
  | .share descriptor source => redirectShare descriptor source
  | .document descriptor word => do
    let text := Mark.text (← wordMarks hooks false .nowhere word)
    setDescriptor descriptor (some (← addChannel (.pipe text)))

/-- Does what redirections ask for. Where one fails, that was told, and `false`
is given. -/
def redirectSafely (hooks : Hooks) (openings : List Opening) : Sh Bool :=
  tryCatch
    (do
      openings.forM (perform hooks)
      return true)
    fun
      | .fault _ => return false
      | stop => throw stop

def checkStatus (tested : Bool) : Sh Unit := do
  let s ← shell
  if !tested && s.status != 0 && s.options.contains 'e' then throw (.exit s.status)

/-- Does something with redirections, which are taken back after it. Where one
fails, the code is two. -/
def redirected (hooks : Hooks) (tested : Bool) (redirects : List Redirect) (action : Sh Unit) :
    Sh Unit := do
  let openings ← redirects.mapM (opening hooks)
  let before := (← shell).descriptors
  ensure
    (do
      if ← redirectSafely hooks openings then action
      else
        finish 2
        checkStatus tested)
    (modifyShell fun s => { s with descriptors := before })

/-! ## Built-in commands -/

/-- What a built-in command is told besides its arguments. -/
structure Call where
  hooks : Hooks
  tested : Bool

/-- A built-in command. -/
abbrev Builtin : Type := Call → List String → Sh Nat

/-- A built-in command that needs its arguments only. -/
def plain (run : List String → Sh Nat) : Builtin := fun _ => run

/-- The code in an argument, or that of the last command. -/
def statusArgument (arguments : List String) : Sh Nat := do
  match arguments with
  | [] => return (← shell).status
  | a :: _ => Builtin.number a

/-- The commands `break` and `continue`. -/
def leaveLoops (stop : Nat → Stop) (arguments : List String) : Sh Nat := do
  let n ← match arguments with
    | [] => pure 1
    | a :: _ => do
      let n ← Builtin.number a
      if n = 0 then fail ("Illegal number: " ++ a) 2
      pure n
  let levels := min n (← shell).loops
  if levels > 0 then
    finish 0
    throw (stop levels)
  return 0

def evalCommand : Builtin := fun call arguments => do
  evaluate call.hooks call.tested (" ".intercalate arguments)
  return (← shell).status

def dotCommand : Builtin := fun call arguments => do
  let (_, rest) ← Builtin.letters "" arguments
  match rest with
  | [] => return 0
  | name :: _ =>
    let tree ← tree
    let path ← if name.toList.contains '/' then pure name
      else do
        let found := (Program.candidates name (← searchPath)).find? fun path =>
          match tree.readContent (Octets.toText path) with
          | .ok _ => true
          | .error _ => false
        match found with
        | some path => pure path
        | none => fail (name ++ ": not found") 2
    match tree.readContent (Octets.toText path) with
    | .error .isDirectory => return 0
    | .error e => fail ("cannot open " ++ path ++ ": " ++ openReason .read e) 2
    | .ok content =>
      modifyShell fun s => { s with running? := some path }
      tryCatch (evaluate call.hooks false content.octets) fun
        | .giveBack => pure ()
        | stop => throw stop
      return (← shell).status

/-- The command `exec` with a program: goes on as that program. -/
def execCommand : Builtin := fun call arguments => do
  let (_, rest) ← Builtin.letters "a:" arguments
  match rest with
  | [] => return 0
  | name :: _ =>
    match ← become call.hooks (← searchPath) (← environment) rest with
    | .ok () =>
      modifyShell fun s => { s with traps := [] }
      throw (.exit (← shell).status)
    | .error e =>
      warn (name ++ ": " ++ e.startReason)
      throw (.exit e.startStatus)

def regularNames : List String :=
  ["alias", "bg", "cd", "chdir", "command", "echo", "false", "fg", "getopts", "hash", "jobs",
    "kill", "printf", "pwd", "read", "test", "[", "true", "type", "ulimit", "umask", "unalias",
    "wait"]

/-- Says what a name of a command stands for, in words or as a path. -/
def describe (words : Bool) (name : String) : Sh Nat := do
  let say (inWords plain : String) : Sh Nat := do
    print (if words then name ++ inWords ++ "\n" else plain ++ "\n")
    return 0
  let s ← shell
  if keywords.contains name then say " is a shell keyword" name
  else
    match s.aliases.lookup name with
    | some value =>
      say (" is an alias for " ++ value) ("alias " ++ name ++ "=" ++ Builtin.quoted value)
    | none =>
      if (s.functions.lookup name).isSome then say " is a shell function" name
      else if specialBuiltins.contains name then say " is a special shell builtin" name
      else if regularNames.contains name then say " is a shell builtin" name
      else
        let absent : Sh Nat := do
          if words then print (name ++ ": not found\n")
          return 127
        match s.tracked.lookup name with
        | some path => say (" is a tracked alias for " ++ path) path
        | none =>
          match ← locate name with
          | .ok path =>
            match ← find path with
            | .ok _ => say (" is " ++ path) path
            | .error _ => absent
          | .error _ => absent

def typeCommand (arguments : List String) : Sh Nat := do
  let (_, rest) ← Builtin.letters "" arguments
  let mut status := 0
  for name in rest do
    status := status ||| (← describe true name)
  return status

/-- The command `command` where it only asks what a name stands for. -/
def commandCommand (arguments : List String) : Sh Nat := do
  let (options, rest) ← Builtin.letters "pvV" arguments
  match rest, (options.map (·.1)).find? fun c => c == 'v' || c == 'V' with
  | name :: _, some c => describe (c == 'V') name
  | _, _ => return 0

/-- The command `hash`: shows the paths that are kept in mind, row by row of the
table that they are kept in, or looks programs up. -/
def hashCommand (arguments : List String) : Sh Nat := do
  let (options, rest) ← Builtin.letters "r" arguments
  if !options.isEmpty then
    modifyShell fun s => { s with tracked := [] }
    return 0
  if rest.isEmpty then
    let known := (← shell).tracked.mergeSort fun a b => row 31 a.1 ≤ row 31 b.1
    print (String.join (known.map (·.2 ++ "\n")))
    return 0
  let mut status := 0
  for name in rest do
    if !regularNames.contains name && !specialBuiltins.contains name &&
        ((← shell).functions.lookup name).isNone then
      modifyShell fun s => { s with tracked := s.tracked.filter (·.1 != name) }
      match ← locate name with
      | .ok _ => pure ()
      | .error _ =>
        warn (name ++ ": not found")
        status := 1
  return status

/-- **The built-in commands by their names.** -/
def builtins : List (String × Builtin) :=
  [(":", plain fun _ => return 0),
    ("true", plain fun _ => return 0),
    ("false", plain fun _ => return 1),
    ("break", plain (leaveLoops .leave)),
    ("continue", plain (leaveLoops .goOn)),
    ("exit", plain fun arguments => do throw (.exit (← statusArgument arguments))),
    ("return", plain fun arguments => do
      finish (← statusArgument arguments)
      throw .giveBack),
    ("eval", evalCommand),
    (".", dotCommand),
    ("exec", execCommand),
    ("command", plain commandCommand),
    ("type", plain typeCommand),
    ("hash", plain hashCommand),
    ("test", plain (Builtin.testCommand "test")),
    ("[", plain (Builtin.testCommand "[")),
    ("echo", plain Builtin.echoCommand),
    ("printf", plain Builtin.printfCommand),
    ("read", plain Builtin.readCommand),
    ("set", plain Builtin.setCommand),
    ("shift", plain Builtin.shiftCommand),
    ("getopts", plain Builtin.getoptsCommand),
    ("export", plain (Builtin.markCommand "export" (fun v => { v with exported := true })
      (·.exported))),
    ("readonly", plain (Builtin.markCommand "readonly" (fun v => { v with readOnly := true })
      (·.readOnly))),
    ("local", plain Builtin.localCommand),
    ("unset", plain Builtin.unsetCommand),
    ("alias", plain Builtin.aliasCommand),
    ("unalias", plain Builtin.unaliasCommand),
    ("cd", plain Builtin.cdCommand),
    ("chdir", plain Builtin.cdCommand),
    ("pwd", plain Builtin.pwdCommand),
    ("umask", plain (Builtin.umaskCommand fun mode text => ModeChange.apply text false 0 mode)),
    ("trap", plain Builtin.trapCommand),
    ("kill", plain Builtin.killCommand),
    ("wait", plain Builtin.waitCommand),
    ("ulimit", plain Builtin.ulimitCommand),
    ("times", plain fun _ => do
      print "0m0.000000s 0m0.000000s\n0m0.000000s 0m0.000000s\n"
      return 0),
    ("jobs", plain fun _ => return 0),
    ("fg", plain fun _ => fail "No current job" 2),
    ("bg", plain fun _ => fail "No current job" 2)]

/-- Runs a built-in command. A fault ends the process only if the command is
special. -/
def runBuiltin (call : Call) (special : Bool) (name : String) (builtin : Builtin)
    (arguments : List String) : Sh Unit := do
  let outer := (← shell).running?
  let restore : Sh Unit := modifyShell fun s => { s with running? := outer }
  modifyShell fun s => { s with running? := some name }
  modify fun s => { s with lost := false }
  tryCatch
    (do
      let status ← builtin call arguments
      if (← get).lost then
        warn (name ++ ": I/O error")
        modify fun s => { s with lost := false }
        finish (status ||| 1)
      else finish status
      restore)
    fun stop => do
      restore
      match stop with
      | .fault status => if special then throw (.fault status) else finish status
      | stop => throw stop

/-! ## Simple commands -/

/-- The commands whose arguments may be assignments. -/
def declares : List String → Bool
  | "command" :: rest => declares rest
  | "-p" :: rest => declares rest
  | "--" :: rest => declares rest
  | name :: _ => name == "export" || name == "readonly" || name == "local"
  | [] => false

def commandFields (hooks : Hooks) : List Word → List String → Sh (List String)
  | [], done => return done
  | word :: rest, done => do
    match if declares done then word.assignment? else none with
    | some (name, value) =>
      let text ← assignedText hooks value
      commandFields hooks rest (done ++ [name ++ "=" ++ text])
    | none => commandFields hooks rest (done ++ (← fields hooks word))

/-- What stands behind options that do not ask for anything; none if one asks, or
nothing stands there. -/
def behindOptions? : List String → Option (List String)
  | [] => none
  | word :: rest =>
    match word.toList with
    | ['-'] => some (word :: rest)
    | ['-', '-'] => if rest.isEmpty then none else some rest
    | '-' :: cs => if cs.all (· == 'p') then behindOptions? rest else none
    | _ => some (word :: rest)

/-- A command without the words `command` in front of it, and whether there
were any. Where something is only asked about a name, it stays as it is. -/
def bypassed : Nat → List String → List String × Bool
  | 0, words => (words, false)
  | budget + 1, words =>
    if words.head? = some "command" then
      match behindOptions? words.tail with
      | some behind => ((bypassed budget behind).1, true)
      | none => (words, false)
    else (words, false)

/-- What the name of a command leads to. -/
inductive Target
  | function (body : Command)
  | builtin (builtin : Builtin)
  | program

/-- What the name of a command leads to, where functions may be passed by. -/
def target (name : String) (bypassing : Bool) : Sh Target := do
  let functions := (← shell).functions
  match if bypassing then none else functions.lookup name with
  | some body => return .function body
  | none =>
    match builtins.lookup name with
    | some builtin => return .builtin builtin
    | none => return .program

def assignAll (hooks : Hooks) (exports : Bool) (assignments : List (String × Word)) :
    Sh (List (String × String)) :=
  assignments.mapM fun (name, word) => do
    let value ← assignedText hooks word
    assign name value
    if exports then
      match ← known? name with
      | some v => setVariable name (some { v with exported := true })
      | none => pure ()
    return (name, value)

def restoreVariables (known : List (String × Option Variable)) : Sh Unit :=
  known.forM fun (name, v?) => setVariable name v?

def withFrame (action : Sh Unit) : Sh Unit := do
  let outer := (← shell).frames
  modifyShell fun s => { s with frames := [] :: outer }
  ensure action do
    restoreVariables ((← shell).frames.headD [])
    modifyShell fun s => { s with frames := outer }

/-- Does something with assignments that hold only meanwhile. -/
def withAssignments (hooks : Hooks) (assignments : List (String × Word))
    (action : List (String × String) → Sh Unit) : Sh Unit := do
  let before := (← shell).vars
  let names := assignments.map (·.1)
  ensure
    (withFrame do
      let done ← assignAll hooks true assignments
      action done)
    (restoreVariables (names.map fun name => (name, before.lookup name)))

/-- Shows a command before it runs, if that is asked for. -/
def trace (messages? : Option Nat) (assignments : List (String × String))
    (words : List String) : Sh Unit := do
  if ← hasOption 'x' then
    let shown := assignments.map (fun (name, value) => name ++ "=" ++ value) ++ words
    match messages? with
    | some channel =>
      writeChannel channel ((← value? "PS4").getD "" ++ " ".intercalate shown ++ "\n")
    | none => pure ()

def callFunction (hooks : Hooks) (tested : Bool) (body : Command) (arguments : List String) :
    Sh Unit := do
  let outer ← shell
  modifyShell fun s => { s with
    parameters := arguments, loops := 0, optionIndex := 1, optionOffset := 0 }
  ensure
    (withFrame (tryCatch (hooks.run tested body) fun
      | .giveBack => pure ()
      | stop => throw stop))
    (modifyShell fun s => { s with
      parameters := outer.parameters, loops := outer.loops
      optionIndex := outer.optionIndex, optionOffset := outer.optionOffset })

def runProgram (hooks : Hooks) (words : List String) : Sh Unit := do
  let _ ← locate (words.headD "")
  match ← launch hooks (← searchPath) (← environment) words with
  | .ok ended => finish (← waited ended)
  | .error e =>
    warn (words.headD "" ++ ": " ++ e.startReason)
    finish e.startStatus

/-- **Runs a simple command.** -/
def runSimple (hooks : Hooks) (tested : Bool) (line : Nat) (assignments : List (String × Word))
    (words : List Word) (redirects : List Redirect) : Sh Unit := do
  modifyShell fun s => { s with line, substituted := 0 }
  let expanded ← commandFields hooks words []
  let (command, bypassing) := bypassed expanded.length expanded
  let openings ← redirects.mapM (opening hooks)
  let before := (← shell).descriptors
  let restore : Sh Unit := modifyShell fun s => { s with descriptors := before }
  match command with
  | [] =>
    ensure
      (do
        if ← redirectSafely hooks openings then
          let done ← assignAll hooks false assignments
          trace (before.lookup 2) done []
          finish (← shell).substituted
        else finish 2)
      restore
  | name :: arguments =>
    let special := specialBuiltins.contains name && !bypassing
    let target ← target name bypassing
    if !(← redirectSafely hooks openings) then
      restore
      finish 2
      if special then throw (.fault 2)
    else
      let run (done : List (String × String)) : Sh Unit := do
        trace (before.lookup 2) done expanded
        match target with
        | .function body => callFunction hooks tested body arguments
        | .builtin builtin => runBuiltin ⟨hooks, tested⟩ special name builtin arguments
        | .program => runProgram hooks command
      let act : Sh Unit := do
        if special then
          run (← assignAll hooks (name == "exec" && !arguments.isEmpty) assignments)
        else withAssignments hooks assignments run
      if name = "exec" then act else ensure act restore

/-! ## Compound commands -/

/-- How a part of a loop ended. -/
inductive Passage
  | through
  /-- The loop goes on with its next turn. -/
  | again
  /-- The loop is left. -/
  | out

def inLoop (action : Sh Unit) : Sh Passage :=
  tryCatch
    (do
      action
      return .through)
    fun
      | .leave levels => if levels > 1 then throw (.leave (levels - 1)) else return .out
      | .goOn levels => if levels > 1 then throw (.goOn (levels - 1)) else return .again
      | stop => throw stop

/-- Runs a loop, inside of which there is one loop more around a command. -/
def asLoop (action : Sh Unit) : Sh Unit := do
  let outer := (← shell).loops
  modifyShell fun s => { s with loops := outer + 1 }
  ensure action (modifyShell fun s => { s with loops := outer })

def turn (hooks : Hooks) (tested goOn : Bool) (test body : Command) (status : Nat) : Sh Unit := do
  match ← inLoop (hooks.run true test) with
  | .out => finish status
  | .again => hooks.cycle tested goOn test body status
  | .through =>
    if ((← shell).status == 0) == goOn then
      match ← inLoop (hooks.run tested body) with
      | .out => pure ()
      | _ => hooks.cycle tested goOn test body (← shell).status
    else finish status

def eachTurn (hooks : Hooks) (tested : Bool) (name : String) (body : Command) :
    List String → Sh Unit
  | [] => pure ()
  | item :: rest => do
    assign name item
    match ← inLoop (hooks.run tested body) with
    | .out => pure ()
    | _ => eachTurn hooks tested name body rest

/-- Keeps the path of the program of a simple command in mind, if its name is
plain. -/
def trackCommand : Command → Sh Unit
  | .simple _ _ (word :: _) _ => do
    match Word.bare? word with
    | some name =>
      if isName name then
        match ← target name false with
        | .program => discard (locate name)
        | _ => pure ()
    | none => pure ()
  | _ => pure ()

/-- Runs the commands of a pipe, the first of which reads from a channel. Each
runs apart; the code is that of the last one. -/
def runPipe (hooks : Hooks) (tested : Bool) : List Command → Option Nat → Sh Unit
  | [], _ => pure ()
  | command :: rest, input? => do
    trackCommand command
    let output? ← if rest.isEmpty then pure none else some <$> addChannel (.pipe "")
    let ended ← apart hooks do
      if input?.isSome then setDescriptor 0 input?
      if output?.isSome then setDescriptor 1 output?
      hooks.run tested command
    if rest.isEmpty then finish (← waited ended) else runPipe hooks tested rest output?

def anyMatch (hooks : Hooks) (text : String) : List Word → Sh Bool
  | [] => return false
  | word :: rest => do
    if Pattern.isMatch (← wordPattern hooks word) text then return true
    else anyMatch hooks text rest

/-- Runs the first of some commands that has a matching pattern. -/
def runCases (hooks : Hooks) (tested : Bool) (text : String) :
    List (List Word × Option Command) → Sh Unit
  | [] => finish 0
  | (patterns, body?) :: rest => do
    if ← anyMatch hooks text patterns then
      match body? with
      | some body => hooks.run tested body
      | none => finish 0
    else runCases hooks tested text rest

/-- Runs a command in the background, which is at its end before the next
command. -/
def runBackground (hooks : Hooks) (command : Command) : Sh Unit := do
  let process := (← get).nextProcess
  let channel ← addChannel .nothing
  let ended ← apart hooks do
    setDescriptor 0 (some channel)
    hooks.run false command
  modifyShell fun s => { s with lastJob? := some process, jobs := (process, ended) :: s.jobs }
  finish 0

def setLine (line : Nat) : Sh Unit := modifyShell fun s => { s with line }

def allFields (hooks : Hooks) (words : List Word) : Sh (List String) := do
  return (← words.mapM (fields hooks)).flatten

/-- **Runs a command.** -/
def runForm (hooks : Hooks) (tested : Bool) : Command → Sh Unit
  | .simple line assignments words redirects => do
    runSimple hooks tested line assignments words redirects
    handleSignals hooks
    checkStatus tested
  | .pipe commands => do
    runPipe hooks tested commands none
    handleSignals hooks
    checkStatus tested
  | .subshell line command redirects => do
    setLine line
    let openings ← redirects.mapM (opening hooks)
    let ended ← apart hooks do
      openings.forM (perform hooks)
      hooks.run tested command
    finish (← waited ended)
    handleSignals hooks
    checkStatus tested
  | .background command => runBackground hooks command
  | .negate command => do
    hooks.run true command
    finish (if (← shell).status = 0 then 1 else 0)
  | .both first second => do
    hooks.run true first
    if (← shell).status = 0 then hooks.run tested second
  | .either first second => do
    hooks.run true first
    if (← shell).status ≠ 0 then hooks.run tested second
  | .sequence first second => do
    hooks.run tested first
    hooks.run tested second
  | .redirected line command redirects => do
    setLine line
    redirected hooks tested redirects (hooks.run tested command)
  | .choice test yes no => do
    hooks.run true test
    if (← shell).status = 0 then hooks.run tested yes
    else
      match no with
      | some no => hooks.run tested no
      | none => finish 0
  | .loop goOn test body => asLoop (hooks.cycle tested goOn test body 0)
  | .forEach line name words? body => do
    setLine line
    let items ← match words? with
      | some words => allFields hooks words
      | none => pure (← shell).parameters
    if items.isEmpty then finish 0 else asLoop (eachTurn hooks tested name body items)
  | .select line subject cases => do
    setLine line
    let text ← wordText hooks subject
    runCases hooks tested text cases
  | .define name body => do
    modifyShell fun s => { s with functions := (name, body) :: s.functions.filter (·.1 != name) }
    finish 0

/-- Runs a command, and what is to be done at the signals that came. -/
def runCommand (hooks : Hooks) (tested : Bool) (command : Command) : Sh Unit := do
  handleSignals hooks
  if !(← hasOption 'n') then
    runForm hooks tested command
    handleSignals hooks

def runText (hooks : Hooks) (tested any : Bool) (input : Input) : Sh Unit := do
  let s ← get
  let before := input.rest
  let (outcome, input) :=
    { input with documents := s.documents, aliases := s.shell.aliases }.nextCommand
  modify fun s => { s with documents := input.documents }
  modifyShell fun s => { s with lineRead := input.line }
  if ← hasOption 'v' then
    complain (String.ofList (before.take (before.length - input.rest.length)))
  match outcome with
  | .done => if !any then finish 0
  | .blank => hooks.proceed tested any input
  | .command command =>
    hooks.run tested command
    hooks.proceed tested true input
  | .fault message => failReading message

end Sh

end MapleCompiler.Script
