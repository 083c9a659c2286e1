import MapleCompiler.Host.Script.Builtin.Format
import MapleCompiler.Host.Script.Process

/-!
# Built-in commands about the state of a process

These commands set and show what a process has: its options and parameters, its
variables and names for commands, its directory, the mode of its files, what it
does at signals and the processes it started. They fail with `Sh.fail`, which
says what is wrong and ends the command.
-/

namespace MapleCompiler.Script.Builtin

/-- The number that an argument denotes; it has no more than 31 bits. -/
def number (text : String) : Sh Nat := do
  match decimal? text with
  | some n =>
    if 0 ≤ n ∧ n ≤ 2147483647 then return n.toNat
    else Sh.fail ("Illegal number: " ++ text) 2
  | none => Sh.fail ("Illegal number: " ++ text) 2

/-- The letters of options at the front of some arguments and the arguments
behind them. Letters before a colon take an argument. -/
def readLetters (known : List Char) : Nat → List String → List (Char × String) →
    Sh (List (Char × String) × List String)
  | 0, arguments, found => return (found, arguments)
  | budget + 1, arguments, found => do
    match arguments with
    | "--" :: rest => return (found, rest)
    | argument :: rest =>
      match argument.toList with
      | '-' :: c :: cs =>
        let behind := known.dropWhile (· != c)
        if behind.isEmpty ∨ c = ':' then Sh.fail ("Illegal option -" ++ c.toString) 2
        else if behind.tail.head? = some ':' then
          if cs ≠ [] then readLetters known budget rest (found ++ [(c, String.ofList cs)])
          else
            match rest with
            | value :: rest => readLetters known budget rest (found ++ [(c, value)])
            | [] => Sh.fail ("No arg for -" ++ c.toString ++ " option") 2
        else if cs = [] then readLetters known budget rest (found ++ [(c, "")])
        else
          readLetters known budget (String.ofList ('-' :: cs) :: rest) (found ++ [(c, "")])
      | _ => return (found, arguments)
    | [] => return (found, [])

def letters (known : String) (arguments : List String) :
    Sh (List (Char × String) × List String) :=
  readLetters known.toList ((arguments.map (·.length + 1)).foldl (· + ·) 1) arguments []

/-- Stretches of a text with and without single quotes, each in quotes of the
other kind. -/
def quoteFrom : Nat → List Char → String
  | 0, _ => ""
  | _, [] => ""
  | budget + 1, cs =>
    let plain := cs.takeWhile (· != '\'')
    let rest := cs.drop plain.length
    let quotes := rest.takeWhile (· == '\'')
    (if plain = [] then "" else "'" ++ String.ofList plain ++ "'") ++
      (if quotes = [] then "" else "\"" ++ String.ofList quotes ++ "\"") ++
      quoteFrom budget (rest.drop quotes.length)

def quoted (text : String) : String :=
  if text = "" then "''" else quoteFrom (text.length + 1) text.toList

/-! ## Options and parameters -/

def optionNames : List (String × Option Char) :=
  [("errexit", some 'e'), ("noglob", some 'f'), ("ignoreeof", some 'I'),
    ("interactive", some 'i'), ("monitor", some 'm'), ("noexec", some 'n'), ("stdin", some 's'),
    ("xtrace", some 'x'), ("verbose", some 'v'), ("vi", some 'V'), ("emacs", some 'E'),
    ("noclobber", some 'C'), ("allexport", some 'a'), ("notify", some 'b'),
    ("nounset", some 'u'), ("privileged", some 'p'), ("nolog", none), ("debug", none)]

def setOption (letter : Char) (on : Bool) : Sh Unit := do
  if optionNames.any (·.2 == some letter) then
    Sh.modifyShell fun s =>
      let others := s.options.filter (· != letter)
      { s with options := if on then letter :: others else others }
  else Sh.fail ("Illegal option -" ++ letter.toString) 2

def setNamedOption (name : String) (on : Bool) : Sh Unit := do
  match optionNames.lookup name with
  | some (some letter) => setOption letter on
  | some none => pure ()
  | none => Sh.fail ("Illegal option -o " ++ name) 2

def showOptions (asTable : Bool) : Sh Unit := do
  let options := (← Sh.shell).options
  let isOn (letter? : Option Char) : Bool := letter?.any options.contains
  if asTable then
    Sh.print ("Current option settings\n" ++ String.join (optionNames.map fun (name, letter?) =>
      name ++ "".pushn ' ' (16 - name.length) ++ (if isOn letter? then "on" else "off") ++ "\n"))
  else
    Sh.print (String.join (optionNames.map fun (name, letter?) =>
      "set " ++ (if isOn letter? then "-o " else "+o ") ++ name ++ "\n"))

/-- Sets options from letters; gives the arguments that are left. -/
def setLetters (on : Bool) : List Char → List String → Sh (List String)
  | [], rest => return rest
  | 'o' :: cs, rest => do
    match rest with
    | [] => showOptions on
    | name :: _ => setNamedOption name on
    setLetters on cs rest.tail
  | c :: cs, rest => do
    setOption c on
    setLetters on cs rest

/-- Sets options from the front of some arguments. Gives the arguments that are
left, and whether they are parameters even if there are none. -/
def setOptions : Nat → List String → Sh (List String × Bool)
  | 0, arguments => return (arguments, false)
  | budget + 1, arguments => do
    match arguments with
    | [] => return ([], false)
    | argument :: rest =>
      match argument.toList with
      | ['-'] =>
        Sh.modifyShell fun s => { s with options := s.options.filter fun c => c != 'x' && c != 'v' }
        return (rest, false)
      | ['-', '-'] => return (rest, true)
      | '-' :: cs => setOptions budget (← setLetters true cs rest)
      | '+' :: cs => setOptions budget (← setLetters false cs rest)
      | _ => return (arguments, false)

def sortedVariables : Sh (List (String × Variable)) := do
  return (← Sh.shell).vars.mergeSort fun a b => a.1 ≤ b.1

def setCommand (arguments : List String) : Sh Nat := do
  if arguments.isEmpty then
    for (name, v) in ← sortedVariables do
      match v.value? with
      | some value => Sh.print (name ++ "=" ++ quoted value ++ "\n")
      | none => pure ()
    return 0
  else
    let (rest, resets) ← setOptions (arguments.length + 1) arguments
    if resets ∨ rest ≠ [] then
      Sh.modifyShell fun s => { s with parameters := rest, optionIndex := 1, optionOffset := 0 }
    return 0

def shiftCommand (arguments : List String) : Sh Nat := do
  let n ← match arguments with
    | [] => pure 1
    | a :: _ => number a
  if n > (← Sh.shell).parameters.length then Sh.fail "can't shift that many" 2
  Sh.modifyShell fun s => { s with
    parameters := s.parameters.drop n, optionIndex := 1, optionOffset := 0 }
  return 0

/-- The command `getopts`: finds the next option among the parameters, or among
given arguments. -/
def getoptsCommand (arguments : List String) : Sh Nat := do
  match arguments with
  | letters :: name :: given =>
    let s ← Sh.shell
    let words := if given.isEmpty then s.parameters else given
    let index := if s.optionIndex > words.length + 1 then 1 else s.optionIndex
    let silent := letters.startsWith ":"
    let current := (words.drop (index - 2)).headD ""
    let within := if index ≥ 2 ∧ s.optionOffset > 0 ∧ s.optionOffset ≤ current.length ∧
        s.optionIndex = index then current.toList.drop s.optionOffset else []
    let leave (index offset : Nat) (shown : String) (status : Nat) : Sh Nat := do
      Sh.assign "OPTIND" (toString index)
      Sh.assign name shown
      Sh.modifyShell fun s => { s with optionIndex := index, optionOffset := offset }
      return status
    let (text, index) ← match within with
      | [] =>
        match (words.drop (index - 1)).head?.map String.toList with
        | some ('-' :: c :: cs) => pure (c :: cs, index + 1)
        | _ => pure ([], index)
      | more => pure (more, index)
    match text with
    | [] => leave index 0 "?" 1
    | ['-'] => if within = [] then leave index 0 "?" 1 else leave index 0 "?" 0
    | c :: cs =>
      let word := (words.drop (index - 2)).headD ""
      let offset := if cs = [] then 0 else word.length - cs.length
      let behind := letters.toList.dropWhile (· != c)
      if c = ':' ∨ behind.isEmpty then
        if silent then Sh.assign "OPTARG" c.toString
        else
          Sh.complain ("Illegal option -" ++ c.toString ++ "\n")
          Sh.setVariable "OPTARG" none
        leave index offset "?" 0
      else if behind.tail.head? = some ':' then
        match cs, (words.drop (index - 1)).head? with
        | [], none =>
          if silent then
            Sh.assign "OPTARG" c.toString
            leave index 0 ":" 0
          else
            Sh.complain ("No arg for -" ++ c.toString ++ " option\n")
            Sh.setVariable "OPTARG" none
            leave index 0 "?" 0
        | [], some value =>
          Sh.assign "OPTARG" value
          leave (index + 1) 0 c.toString 0
        | _, _ =>
          Sh.assign "OPTARG" (String.ofList cs)
          leave index 0 c.toString 0
      else
        Sh.assign "OPTARG" ""
        leave index offset c.toString 0
  | _ => Sh.fail "Usage: getopts optstring var [arg...]" 2

/-! ## Variables -/

/-- The name and the value of an argument of the form `name=value`. -/
def splitAssignment (argument : String) : String × Option String :=
  let name := argument.toList.takeWhile (· != '=')
  match argument.toList.drop name.length with
  | [] => (argument, none)
  | _ :: value => (String.ofList name, some (String.ofList value))

def checkName (name : String) : Sh Unit :=
  if isName name then pure () else Sh.fail (name ++ ": bad variable name") 2

/-- The commands `export` and `readonly`: mark variables, which may be given
values. -/
def markCommand (name : String) (mark : Variable → Variable) (isMarked : Variable → Bool)
    (arguments : List String) : Sh Nat := do
  let (options, rest) ← letters "p" arguments
  if rest.isEmpty ∨ options ≠ [] then
    for (variableName, v) in ← sortedVariables do
      if isMarked v then
        let value := match v.value? with
          | some value => "=" ++ quoted value
          | none => ""
        Sh.print (name ++ " " ++ variableName ++ value ++ "\n")
    return 0
  else
    for argument in rest do
      let (variableName, value?) := splitAssignment argument
      checkName variableName
      match value? with
      | some value => Sh.assign variableName value
      | none => pure ()
      let known := (← Sh.known? variableName).getD ⟨none, false, false⟩
      Sh.setVariable variableName (some (mark known))
    return 0

/-- The command `local`: keeps variables for the end of the function that
runs. -/
def localCommand (arguments : List String) : Sh Nat := do
  match (← Sh.shell).frames with
  | [] => Sh.fail "not in a function" 2
  | _ =>
    for argument in arguments do
      let (name, value?) := splitAssignment argument
      if name = "-" then
        pure ()
      else
        checkName name
        let known ← Sh.known? name
        Sh.modifyShell fun s => match s.frames with
          | frame :: outer =>
            if (frame.map (·.1)).contains name then s
            else { s with frames := ((name, known) :: frame) :: outer }
          | [] => s
        match value? with
        | some value => Sh.assign name value
        | none => pure ()
    return 0

def unsetCommand (arguments : List String) : Sh Nat := do
  let (options, rest) ← letters "fv" arguments
  let functions := options.getLast?.any (·.1 == 'f')
  for name in rest do
    if functions then
      Sh.modifyShell fun s => { s with functions := s.functions.filter (·.1 != name) }
    else
      match ← Sh.known? name with
      | some v =>
        if v.readOnly then Sh.fail (name ++ ": is read only") 2
        Sh.setVariable name none
      | none => checkName name
  return 0

/-! ## Names for commands -/

def aliasCommand (arguments : List String) : Sh Nat := do
  let shown (name value : String) : String := name ++ "=" ++ quoted value ++ "\n"
  if arguments.isEmpty then
    for (name, value) in (← Sh.shell).aliases.mergeSort fun a b => a.1 ≤ b.1 do
      Sh.print (shown name value)
    return 0
  else
    let mut status := 0
    for argument in arguments do
      match splitAssignment argument with
      | (name, some value) =>
        Sh.modifyShell fun s => { s with
          aliases := (name, value) :: s.aliases.filter (·.1 != name) }
      | (name, none) =>
        match (← Sh.shell).aliases.lookup name with
        | some value => Sh.print (shown name value)
        | none =>
          Sh.complain ("alias: " ++ name ++ " not found\n")
          status := 1
    return status

def unaliasCommand (arguments : List String) : Sh Nat := do
  let (options, rest) ← letters "a" arguments
  if options ≠ [] then
    Sh.modifyShell fun s => { s with aliases := [] }
    return 0
  else
    let mut status := 0
    for name in rest do
      if ((← Sh.shell).aliases.lookup name).isNone then
        Sh.complain ("unalias: " ++ name ++ " not found\n")
        status := 1
      Sh.modifyShell fun s => { s with aliases := s.aliases.filter (·.1 != name) }
    return status

/-! ## Directories and modes -/

def placePath (place : Place) : String := "/" ++ Octets.ofText ("/".intercalate place)

def directoryPath : Sh String := do
  return placePath (← Sh.shell).directory

def directoryAt? (path : String) : Sh (Option Place) := do
  match ← Sh.find path with
  | .ok (place, .directory mode) => return if mode.gives .pass then some place else none
  | _ => return none

def cdCommand (arguments : List String) : Sh Nat := do
  let (_, rest) ← letters "LP" arguments
  let old ← directoryPath
  let (path, shows) ← match rest with
    | [] =>
      match ← Sh.value? "HOME" with
      | some home => pure (home, false)
      | none => pure ("", false)
    | "-" :: _ => pure ((← Sh.value? "OLDPWD").getD "", true)
    | path :: _ => pure (path, false)
  let target := if path = "" then "." else path
  let searched ← match (← Sh.value? "CDPATH") with
    | none => pure []
    | some list =>
      if path.startsWith "/" || path.startsWith "./" || path.startsWith "../" || path = "." ||
          path = ".." then pure []
      else pure ((list.splitOn ":").filter (· ≠ "") |>.map (· ++ "/" ++ target))
  for candidate in searched ++ [target] do
    match ← directoryAt? candidate with
    | some place =>
      Sh.modifyShell fun s => { s with directory := place }
      for (name, value) in [("OLDPWD", old), ("PWD", placePath place)] do
        Sh.assign name value
        Sh.setVariable name (some ⟨some value, true, false⟩)
      if shows ∨ candidate ≠ target then Sh.print (placePath place ++ "\n")
      return 0
    | none => pure ()
  Sh.fail ("can't cd to " ++ path) 2

def pwdCommand (arguments : List String) : Sh Nat := do
  let _ ← letters "LP" arguments
  Sh.print ((← directoryPath) ++ "\n")
  return 0

def rightsText (bits : Nat) : String :=
  (if bits.testBit 2 then "r" else "") ++ (if bits.testBit 1 then "w" else "") ++
    (if bits.testBit 0 then "x" else "")

def umaskCommand (change : Nat → String → Option Nat) (arguments : List String) : Sh Nat := do
  let (options, rest) ← letters "S" arguments
  let mask := (← Sh.shell).mask
  match rest with
  | [] =>
    if options ≠ [] then
      let kept := 0o777 - mask
      Sh.print ("u=" ++ rightsText (kept / 64) ++ ",g=" ++ rightsText (kept / 8 % 8) ++ ",o=" ++
        rightsText (kept % 8) ++ "\n")
    else
      let digits := String.ofList (Nat.toDigits 8 mask)
      Sh.print ("".pushn '0' (4 - digits.length) ++ digits ++ "\n")
    return 0
  | text :: _ =>
    if text.toList.any Char.isDigit then
      if text.toList.all Format.isOctal ∧ digitsValue 8 text.toList ≤ 0o777 then
        Sh.modifyShell fun s => { s with mask := digitsValue 8 text.toList }
        return 0
      else Sh.fail ("Illegal number: " ++ text) 2
    else
      match change (0o777 - mask) text with
      | some mode =>
        Sh.modifyShell fun s => { s with mask := 0o777 - mode % 0o1000 }
        return 0
      | none => Sh.fail ("Illegal mode: " ++ text) 2

/-! ## Signals and processes -/

def signalNumber? (text : String) (least : Nat) : Option Nat :=
  if text ≠ "" ∧ text.toList.all Char.isDigit then
    let n := digitsValue 10 text.toList
    if n < 65 then some n else none
  else
    let names := "EXIT" :: ExitState.signalNames
    match names.idxOf? text.toUpper with
    | some n => if n ≥ least then some n else none
    | none =>
      match text.toUpper with
      | "RTMIN" => some 34
      | "RTMAX" => some 64
      | _ => none

/-- The name of a signal; zero is the end of the process. -/
def signalShown (n : Nat) : String :=
  if n = 0 then "EXIT"
  else match ExitState.signalName? n with
    | some name => name
    | none =>
      if n = 34 then "RTMIN"
      else if n = 64 then "RTMAX"
      else if n < 34 then toString n
      else if n < 50 then "RTMIN+" ++ toString (n - 34)
      else "RTMAX-" ++ toString (64 - n)

def trapCommand (arguments : List String) : Sh Nat := do
  let (_, rest) ← letters "" arguments
  match rest with
  | [] =>
    for (n, text) in (← Sh.shell).traps.mergeSort fun a b => a.1 ≤ b.1 do
      Sh.print ("trap -- " ++ quoted text ++ " " ++ signalShown n ++ "\n")
    return 0
  | first :: others =>
    let (action?, signals) := if others.isEmpty then (none, rest)
      else (if first = "-" then none else some first, others)
    for name in signals do
      match signalNumber? name 0 with
      | none =>
        Sh.complain ("trap: " ++ name ++ ": bad trap\n")
        return 1
      | some n =>
        Sh.modifyShell fun s =>
          let kept := s.traps.filter (·.1 != n)
          { s with traps := match action? with
              | some action => (n, action) :: kept
              | none => kept }
    return 0

def killUsage : String :=
  "Usage: kill [-s sigspec | -signum | -sigspec] [pid | job]... or\nkill -l [exitstatus]"

def killAll (signal : Nat) : List String → Nat → Sh Nat
  | [], status => return status
  | target :: rest, status => do
    let process ← if target.startsWith "%" then
        match (← Sh.shell).lastJob? with
        | some job => pure job
        | none => Sh.fail ("No such job: " ++ target) 2
      else if target.startsWith "-" then do
        number (String.ofList target.toList.tail)
      else number target
    let own := (← Sh.shell).identity
    let process := if process = 0 then own else process
    if ← Sh.signal process signal then killAll signal rest status
    else if (← Sh.shell).jobs.any (·.1 == process) then killAll signal rest status
    else
      Sh.warn "No such process\n"
      killAll signal rest 1

def killCommand (arguments : List String) : Sh Nat := do
  let usage : Sh Nat := Sh.fail killUsage 2
  let (signal?, lists, targets) ← match arguments with
    | [] => pure (none, false, [])
    | first :: rest =>
      if first.startsWith "-" then
        match signalNumber? (String.ofList first.toList.tail) 1 with
        | some n => pure (some n, false, rest)
        | none =>
          let (options, rest) ← letters "ls:" arguments
          let signal? ← match options.find? (·.1 == 's') with
            | some (_, name) =>
              match signalNumber? name 1 with
              | some n => pure (some n)
              | none => Sh.fail ("invalid signal number or name: " ++ name) 2
            | none => pure none
          pure (signal?, options.any (·.1 == 'l'), rest)
      else pure (none, false, arguments)
  if lists then
    match targets with
    | [] =>
      Sh.print (String.join (("0" :: (List.range 64).map fun n => signalShown (n + 1)).map
        (· ++ "\n")))
      return 0
    | target :: _ =>
      let n ← number target
      let n := if n > 128 then n - 128 else n
      if 0 < n ∧ n < 65 then
        Sh.print (signalShown n ++ "\n")
        return 0
      else Sh.fail ("invalid signal number or exit status: " ++ target) 2
  else if targets.isEmpty then usage
  else killAll (signal?.getD 15) targets 0

def waitCommand (arguments : List String) : Sh Nat := do
  if arguments.isEmpty then
    Sh.modifyShell fun s => { s with jobs := [] }
    return 0
  else
    let mut status := 0
    for argument in arguments do
      let last := (← Sh.shell).lastJob?.getD 0
      let process ← if argument.startsWith "%" then pure last else number argument
      match (← Sh.shell).jobs.lookup process with
      | some ended =>
        Sh.modifyShell fun s => { s with jobs := s.jobs.filter (·.1 != process) }
        status := ended.code
      | none => status := 127
    return status

def ulimitCommand (arguments : List String) : Sh Nat := do
  let (options, rest) ← letters "HSatfdsmcpnlvwr" arguments
  if rest.isEmpty then
    let kind := (options.map (·.1)).find? fun c => c != 'H' && c != 'S'
    Sh.print (match kind with
      | some 'c' => "0\n"
      | some 'n' => "1024\n"
      | some 's' => "8192\n"
      | _ => "unlimited\n")
  return 0

end MapleCompiler.Script.Builtin
