import MapleCompiler.Host.Script.Builtin.Condition
import MapleCompiler.Host.Script.Builtin.Stream
import MapleCompiler.Host.Tool.Files
import MapleCompiler.Host.Tool.Regex

/-!
# Programs that make texts of their arguments

These programs write their arguments, take paths apart, count, compute, and
start other programs in an environment they change.
-/

namespace MapleCompiler.Script.Tool

/-! ## Writing arguments -/

/-- The letters at the front of the arguments of `echo`, and the others. -/
def echoLetters : List String → List Char × List String
  | [] => ([], [])
  | argument :: rest =>
    match argument.toList with
    | '-' :: c :: cs =>
      if (c :: cs).all ("neE".toList.contains ·) then
        let (letters, others) := echoLetters rest
        (c :: cs ++ letters, others)
      else ([], argument :: rest)
    | _ => ([], argument :: rest)

/-- The program `echo`. Escapes are replaced only if that is asked for. -/
def echo : Tool := fun _ arguments => do
  let (letters, words) := echoLetters arguments
  let escapes := (letters.filter (· != 'n')).getLast? = some 'e'
  let (text, ends) := if escapes then Builtin.echoed true words else (" ".intercalate words, false)
  Sh.print (if letters.contains 'n' || ends then text else text ++ "\n")
  return 0

def printf : Tool := fun _ arguments => do
  let arguments := if arguments.head? = some "--" then arguments.tail else arguments
  match arguments with
  | [] => misuse "missing operand" 1
  | format :: rest =>
    let use := Format.use true format rest
    for (argument, flaw) in use.flaws do
      say (match flaw with
        | .notNumeric => cited argument ++ ": expected a numeric value"
        | .unfinished => cited argument ++ ": value not completely converted"
        | .outOfRange => cited argument ++ ": Numerical result out of range")
    Sh.print use.text
    match use.fault? with
    | some message => fail message 1
    | none => return if use.flaws.isEmpty then 0 else 1

/-- The program `yes`, which is ended when nobody reads on. -/
def yes : Tool := fun _ arguments => do
  let line := (if arguments.isEmpty then "y" else " ".intercalate arguments) ++ "\n"
  if (← Sh.outlet? 1).isNone then fail "standard output: Bad file descriptor" 1
  Sh.print (String.join (List.replicate (65536 / line.length + 1) line))
  throw (.killed (← Sh.shell).identity 13)

/-! ## Paths -/

def dropEnding (name ending : String) : String :=
  if name ≠ ending ∧ name.endsWith ending then
    String.ofList (name.toList.take (name.length - ending.length))
  else name

def basename : Tool := fun _ arguments => do
  let (found, names) ← ({
    letters := "as:z", names := [("multiple", 'a'), ("suffix", 's'), ("zero", 'z')]
    status := 1, ordered := true } : Options).read arguments
  let ending := (valueOf? found 's').getD ""
  match names with
  | [] => misuse "missing operand" 1
  | first :: rest =>
    if has found 'a' || has found 's' then
      names.forM fun name => Sh.print (dropEnding (lastName name) ending ++ "\n")
    else
      match rest with
      | [] => Sh.print (lastName first ++ "\n")
      | [ending] => Sh.print (dropEnding (lastName first) ending ++ "\n")
      | _ :: extra :: _ => misuse ("extra operand " ++ cited extra) 1
    return 0

def dirname : Tool := fun _ arguments => do
  let (_, names) ← ({
    letters := "z", names := [("zero", 'z')], status := 1, ordered := true } : Options).read
      arguments
  if names.isEmpty then misuse "missing operand" 1
  names.forM fun name => Sh.print (above name ++ "\n")
  return 0

def fullPath (path : String) (mustBe : Bool) : Sh (Except FileError String) := do
  let tree ← Sh.tree
  match tree.reach (Octets.toText path) with
  | .error e => return .error e
  | .ok place =>
    let there := (tree.get? (if mustBe then place else place.dropLast)).isSome
    return if there then .ok (Builtin.placePath place) else .error .notFound

def realpath : Tool := fun _ arguments => do
  let (found, names) ← ({
    letters := "emsqLPz", names := [("canonicalize-existing", 'e'), ("quiet", 'q')]
    status := 1, ordered := false } : Options).read arguments
  if names.isEmpty then misuse "missing operand" 1
  each names fun name => do
    match ← fullPath name (has found 'e') with
    | .ok path =>
      Sh.print (path ++ "\n")
      return true
    | .error e =>
      say (unreadable name e)
      return false

def readlink : Tool := fun _ arguments => do
  let (found, names) ← ({
    letters := "fenmqsvz", names := [("canonicalize", 'f')], status := 1, ordered := false } :
      Options).read arguments
  if names.isEmpty then misuse "missing operand" 1
  each names fun name => do
    if has found 'f' || has found 'e' || has found 'm' then
      match ← fullPath name (has found 'e') with
      | .ok path =>
        Sh.print (path ++ (if has found 'n' then "" else "\n"))
        return true
      | .error _ => return false
    else
      match ← Sh.look name with
      | .ok (_, .link target) =>
        Sh.print (Octets.ofText target ++ (if has found 'n' then "" else "\n"))
        return true
      | _ => return false

/-- What a letter of a format of `stat` stands for. -/
def statField (name : String) (entry : Entry) : Char → String
  | 'n' => name
  | 's' => match entry with
    | .file content _ => toString content.octets.length
    | .link target => toString target.utf8ByteSize
    | .directory _ => "4096"
  | 'a' => String.ofList (Nat.toDigits 8 entry.mode)
  | 'F' => match entry with
    | .file content _ => if content.octets = "" then "regular empty file" else "regular file"
    | .link _ => "symbolic link"
    | .directory _ => "directory"
  | 'A' =>
    let rights (bits : Nat) : String :=
      (if bits.testBit 2 then "r" else "-") ++ (if bits.testBit 1 then "w" else "-") ++
        (if bits.testBit 0 then "x" else "-")
    (match entry with
      | .directory _ => "d"
      | .link _ => "l"
      | .file _ _ => "-") ++ rights (entry.mode >>> 6) ++
      rights (entry.mode >>> 3) ++ rights entry.mode
  | c => "%" ++ c.toString

/-- A format of `stat` with its fields replaced. -/
def statText (name : String) (entry : Entry) : List Char → String
  | '%' :: c :: rest => statField name entry c ++ statText name entry rest
  | c :: rest => c.toString ++ statText name entry rest
  | [] => ""

/-- The program `stat`, where a format is given. -/
def stat : Tool := fun _ arguments => do
  let (found, names) ← ({
    letters := "c:Lft", names := [("format", 'c')], status := 1, ordered := false } :
      Options).read arguments
  if names.isEmpty then misuse "missing operand" 1
  each names fun name => do
    match ← if has found 'L' then Sh.find name else Sh.look name with
    | .ok (_, entry) =>
      Sh.print (statText name entry ((valueOf? found 'c').getD "%n").toList ++ "\n")
      return true
    | .error e => because ("cannot statx " ++ inQuotes name) e

/-! ## Numbers -/

/-- A decimal number: its digits as a whole number, and how many of them are
behind the point. -/
structure Decimal where
  digits : Int
  places : Nat

namespace Decimal

def read? (text : String) : Option Decimal :=
  let cs := text.toList
  let negative := cs.head? = some '-'
  let cs := if negative ∨ cs.head? = some '+' then cs.tail else cs
  let whole := cs.takeWhile Char.isDigit
  let rest := cs.drop whole.length
  let places := if rest.head? = some '.' then rest.tail else []
  if (whole = [] ∧ places = []) ∨ places.any (!Char.isDigit ·) ∨
      (rest ≠ [] ∧ rest.head? ≠ some '.') then none
  else
    let n : Int := digitsValue 10 (whole ++ places)
    some ⟨if negative then -n else n, places.length⟩

def scaled (d : Decimal) (places : Nat) : Int := d.digits * (Nat.pow 10 (places - d.places) : Nat)

def text (d : Decimal) : String :=
  (if d.digits < 0 then "-" else "") ++ Format.Directive.pointed d.digits.natAbs d.places false

end Decimal

def zeroFilled (width : Nat) (text : String) : String :=
  let missing := "".pushn '0' (width - text.length)
  if text.startsWith "-" then "-" ++ missing ++ String.ofList text.toList.tail else missing ++ text

def seq : Tool := fun _ arguments => do
  let isNumber (text : String) : Bool :=
    text.startsWith "-" && ((text.toList.drop 1).head?.any fun c => c.isDigit || c == '.')
  let front := arguments.takeWhile (!isNumber ·)
  let (found, operands) ← ({
    letters := "f:s:w", names := [("format", 'f'), ("separator", 's'), ("equal-width", 'w')]
    status := 1, ordered := true } : Options).read
      (if front.length = arguments.length then arguments
        else front ++ "--" :: arguments.drop front.length)
  let operands := operands.filter (· ≠ "--")
  let number (text : String) : Sh Decimal := do
    match Decimal.read? text with
    | some d => return d
    | none => misuse ("invalid floating point argument: " ++ cited text) 1
  let (first, step, last) ← match operands with
    | [] => misuse "missing operand" 1
    | [last] => pure (⟨1, 0⟩, ⟨1, 0⟩, ← number last)
    | [first, last] => pure (← number first, ⟨1, 0⟩, ← number last)
    | [first, step, last] => pure (← number first, ← number step, ← number last)
    | _ :: _ :: _ :: extra :: _ => misuse ("extra operand " ++ cited extra) 1
  if step.digits = 0 then
    misuse ("invalid Zero increment value: " ++ cited ((operands.drop 1).headD "")) 1
  let shownPlaces := max first.places step.places
  let places := max shownPlaces last.places
  let start := first.scaled places
  let stride := step.scaled places
  let stop := last.scaled places
  let count := if stride > 0 then (if stop < start then 0 else (stop - start) / stride + 1)
    else (if stop > start then 0 else (start - stop) / (-stride) + 1)
  let values := (List.range (min count.toNat 1000000)).map fun (i : Nat) =>
    let n := start + stride * i
    (⟨n / (Nat.pow 10 (places - shownPlaces) : Nat), shownPlaces⟩ : Decimal)
  let texts := values.map Decimal.text
  let texts := match valueOf? found 'f' with
    | some format => values.map fun d => (Format.use true format [d.text]).text
    | none =>
      if has found 'w' then
        let width := (texts.map (·.length)).foldl max 0
        texts.map (zeroFilled width)
      else texts
  if texts ≠ [] then Sh.print (((valueOf? found 's').getD "\n").intercalate texts ++ "\n")
  return 0

/-! ## Expressions in arguments -/

/-- The arguments of an expression: the one before, and those to come. -/
structure Tokens where
  before : String
  rest : List String

/-- A step of computing an expression in arguments. -/
abbrev Computing (α : Type) : Type := StateT Tokens Sh α

namespace Computing

/-- Takes the next argument if it is one of some. -/
def accept? (words : List String) : Computing (Option String) := do
  let s ← get
  match s.rest with
  | word :: rest =>
    if words.contains word then
      set (Tokens.mk word rest)
      return some word
    else return none
  | [] => return none

/-- Takes the next argument, which has to be there. -/
def next : Computing String := do
  let s ← get
  match s.rest with
  | word :: rest =>
    set (Tokens.mk word rest)
    return word
  | [] => (fail ("syntax error: missing argument after " ++ cited s.before) 2 : Sh String)

def wholeValue? (text : String) : Option Int :=
  let cs := text.toList
  let negative := cs.head? = some '-'
  let digits := if negative then cs.tail else cs
  if digits = [] ∨ digits.any (!Char.isDigit ·) then none
  else some (if negative then -(digitsValue 10 digits : Int) else digitsValue 10 digits)

/-- The whole number that a value has to be. -/
def whole (text : String) : Computing Int :=
  match wholeValue? text with
  | some n => return n
  | none => (fail "non-integer argument" 2 : Sh Int)

def isNull (text : String) : Bool := text.isEmpty || wholeValue? text == some 0

/-- What a text gives if it is matched with an expression from its front: the
first group, or the number of characters. -/
def matched (text pattern : String) : Computing String := do
  match Regex.ofText false false pattern with
  | .error message => (fail message 2 : Sh String)
  | .ok regex =>
    let grouped := (pattern.splitOn "\\(").length > 1
    match regex.matchAt? false 0 none text.toList with
    | some m => return if grouped then String.ofList (m.group 1) else toString m.taken.length
    | none => return if grouped then "" else "0"

/-- A comparison of two values, as numbers if both are. -/
def compare (op a b : String) : String :=
  let order := match wholeValue? a, wholeValue? b with
    | some m, some n => Ord.compare m n
    | _, _ => if a < b then .lt else if b < a then .gt else .eq
  let holds : Bool := match op with
    | "<" => order == .lt
    | "<=" => order != .gt
    | "=" | "==" => order == .eq
    | "!=" => order != .eq
    | ">=" => order != .lt
    | _ => order == .gt
  if holds then "1" else "0"

def levels : List (List String) :=
  [["|"], ["&"], ["<", "<=", "=", "==", "!=", ">=", ">"], ["+", "-"], ["*", "/", "%"], [":"]]

/-- The value of an operation. Where it is `idle`, nothing can go wrong. -/
def operate (idle : Bool) (op a b : String) : Computing String := do
  match op with
  | "|" => return if !isNull a then a else if !isNull b then b else "0"
  | "&" => return if isNull a || isNull b then "0" else a
  | "+" | "-" | "*" | "/" | "%" =>
    if idle then return "0"
    else
      let m ← whole a
      let n ← whole b
      match op with
      | "+" => return toString (m + n)
      | "-" => return toString (m - n)
      | "*" => return toString (m * n)
      | _ =>
        if n = 0 then (fail "division by zero" 2 : Sh String)
        else return toString (if op = "/" then m.tdiv n else m.tmod n)
  | ":" => if idle then return "0" else matched a b
  | _ => return compare op a b

mutual

/-- The value of an expression of operators that bind at least as tightly as
those of a level. -/
def level : Nat → Bool → List (List String) → Computing String
  | 0, _, _ => return ""
  | budget + 1, idle, [] => word budget idle
  | budget + 1, idle, operators :: tighter => do
    let first ← level budget idle tighter
    operations budget idle operators tighter first

/-- The value of operations of one level, of which the first operand is
known. -/
def operations : Nat → Bool → List String → List (List String) → String → Computing String
  | 0, _, _, _, value => return value
  | budget + 1, idle, operators, tighter, value => do
    match ← accept? operators with
    | none => return value
    | some op =>
      let skips := op = "|" && !isNull value || op = "&" && isNull value
      let right ← level budget (idle || skips) tighter
      let result ← operate (idle || skips) op value right
      operations budget idle operators tighter result

def word : Nat → Bool → Computing String
  | 0, _ => return ""
  | budget + 1, idle => do
    let word_ ← next
    let more := !(← get).rest.isEmpty
    match word_ with
    | "(" =>
      let value ← level budget idle levels
      let s ← get
      match s.rest with
      | ")" :: rest =>
        set (Tokens.mk ")" rest)
        return value
      | [] => (fail ("syntax error: expecting ')' after " ++ cited s.before) 2 : Sh String)
      | other :: _ =>
        (fail ("syntax error: expecting ')' instead of " ++ cited other) 2 : Sh String)
    | ")" => (fail "syntax error: unexpected ')'" 2 : Sh String)
    | "+" => next
    | "length" =>
      if !more then return word_
      let text ← word budget idle
      return toString text.length
    | "match" =>
      if !more then return word_
      let text ← word budget idle
      let pattern ← word budget idle
      if idle then return "0" else matched text pattern
    | "index" =>
      if !more then return word_
      let text ← word budget idle
      let chars ← word budget idle
      match text.toList.findIdx? (chars.toList.contains ·) with
      | some i => return toString (i + 1)
      | none => return "0"
    | "substr" =>
      if !more then return word_
      let text ← word budget idle
      let start ← word budget idle
      let size ← word budget idle
      match wholeValue? start, wholeValue? size with
      | some m, some n =>
        if m ≤ 0 ∨ n ≤ 0 then return ""
        else return String.ofList ((text.toList.drop (m.toNat - 1)).take n.toNat)
      | _, _ => return ""
    | _ => return word_

end

end Computing

def expr : Tool := fun _ arguments => do
  let arguments := if arguments.head? = some "--" then arguments.tail else arguments
  if arguments.isEmpty then misuse "missing operand" 2
  let (value, s) ← (Computing.level (16 * arguments.length + 32) false Computing.levels).run
    ⟨"", arguments⟩
  match s.rest with
  | extra :: _ => fail ("syntax error: unexpected argument " ++ cited extra) 2
  | [] =>
    Sh.print (value ++ "\n")
    return if Computing.isNull value then 1 else 0

/-! ## The environment and other programs -/

/-- The variables that a program is given, in order. -/
def environment : Sh (List (String × String)) := do
  return (← Sh.shell).vars.filterMap fun (name, v) => v.value?.map fun value => (name, value)

def startOther (hooks : Hooks) (environment : List (String × String)) (words : List String)
    (complaint : String → String) : Sh Nat := do
  match ← Sh.become hooks (Program.searched environment) environment words with
  | .ok () => return (← Sh.shell).status
  | .error e =>
    say (complaint (words.headD "") ++ ": " ++ e.reason)
    return if e.startStatus = 127 then 127 else 126

def env : Tool := fun hooks arguments => do
  let (found, words) ← ({
    letters := "iu:0C:", names := [("ignore-environment", 'i'), ("unset", 'u'), ("chdir", 'C')]
    status := 125, ordered := true } : Options).read
      (arguments.map fun a => if a = "-" then "-i" else a)
  let inherited ← environment
  let start := if has found 'i' then [] else inherited
  let dropped := (found.filter (·.1 == 'u')).map (·.2)
  let kept := start.filter fun (name, _) => !dropped.contains name
  let given := words.takeWhile (·.toList.contains '=')
  let assignments := given.map fun word =>
    let (name, value?) := Builtin.splitAssignment word
    (name, value?.getD "")
  let all := assignments.foldl (fun list (name, value) =>
    if list.any (·.1 == name) then
      list.map fun (n, v) => if n = name then (n, value) else (n, v)
    else list ++ [(name, value)]) kept
  let path? := all.lookup "PATH"
  match words.drop given.length with
  | [] =>
    Sh.print (String.join (all.map fun (name, value) => name ++ "=" ++ value ++ "\n"))
    return 0
  | command =>
    Sh.setVariable "PATH" (path?.map fun path => ⟨some path, true, false⟩)
    startOther hooks all command cited

def printenv : Tool := fun _ arguments => do
  let all ← environment
  if arguments.isEmpty then
    Sh.print (String.join (all.map fun (name, value) => name ++ "=" ++ value ++ "\n"))
    return 0
  else each arguments fun name => do
    match all.lookup name with
    | some value =>
      Sh.print (value ++ "\n")
      return true
    | none => return false

def isDuration (text : String) : Bool :=
  let cs := text.toList
  let number := match cs.getLast? with
    | some c => if "smhd".toList.contains c then cs.dropLast else cs
    | none => cs
  (Decimal.read? (String.ofList number)).any (0 ≤ ·.digits) ||
    String.ofList number == "infinity" || String.ofList number == "inf"

/-- The program `sleep`. Time does not pass for others. -/
def sleep : Tool := fun _ arguments => do
  if arguments.isEmpty then misuse "missing operand" 1
  for argument in arguments do
    if !isDuration argument then misuse ("invalid time interval " ++ cited argument) 1
  return 0

def timeout : Tool := fun hooks arguments => do
  let (_, words) ← ({
    letters := "k:s:v"
    names := [("kill-after", 'k'), ("signal", 's'), ("foreground", 'f'), ("preserve-status", 'p')]
    status := 125, ordered := true } : Options).read arguments
  match words with
  | duration :: command =>
    if command.isEmpty then
      Sh.complain ("Try '" ++ (← Sh.shell).name ++ " --help' for more information.\n")
      return 125
    else if !isDuration duration then misuse ("invalid time interval " ++ cited duration) 125
    else startOther hooks (← environment) command fun name => "failed to run command " ++ cited name
  | [] =>
    Sh.complain ("Try '" ++ (← Sh.shell).name ++ " --help' for more information.\n")
    return 125

def before (letters : String) : Tool := fun hooks arguments => do
  let (_, words) ← ({ letters, names := [], status := 125, ordered := true } : Options).read
    arguments
  if words.isEmpty then misuse "missing operand" 125
  startOther hooks (← environment) words cited

/-- The program `which`. -/
def which : Tool := fun _ arguments => do
  let (_, names) ← ({ letters := "as", names := [], status := 2, ordered := false } :
    Options).read arguments
  each names fun name => do
    match Program.choose (← Sh.tree) (Program.candidates name (← Sh.searchPath)) with
    | .ok path =>
      match ← Sh.find path with
      | .ok (_, .file _ mode) =>
        if mode.gives .pass then
          Sh.print (path ++ "\n")
          return true
        else return false
      | _ => return false
    | .error _ => return false

/-- Items of the input of `xargs`: words, where quotes and backslashes keep
blanks. -/
def inputWords : Nat → List Char → Option (List Char) → List String
  | 0, _, _ => []
  | _, [], current? => current?.toList.map fun cs => String.ofList cs.reverse
  | budget + 1, c :: cs, current? =>
    let current := current?.getD []
    if c = ' ' ∨ c = '\t' ∨ c = '\n' then
      (current?.toList.map fun cs => String.ofList cs.reverse) ++ inputWords budget cs none
    else if c = '\'' ∨ c = '"' then
      let inside := cs.takeWhile (· != c)
      inputWords budget (cs.drop (inside.length + 1)) (some (inside.reverse ++ current))
    else if c = '\\' then
      match cs with
      | d :: cs => inputWords budget cs (some (d :: current))
      | [] => inputWords budget [] (some current)
    else inputWords budget cs (some (c :: current))

def chunks (size : Nat) : Nat → List String → List (List String)
  | 0, _ => []
  | _, [] => []
  | budget + 1, items => items.take size :: chunks size budget (items.drop size)

def xargs : Tool := fun hooks arguments => do
  let (found, words) ← ({
    letters := "0I:n:rtL:P:d:s:x"
    names := [("null", '0'), ("max-args", 'n'), ("no-run-if-empty", 'r'), ("verbose", 't'),
      ("replace", 'I'), ("max-lines", 'L'), ("max-procs", 'P'), ("delimiter", 'd')]
    status := 1, ordered := true } : Options).read arguments
  let command := if words.isEmpty then ["echo"] else words
  let text ← Sh.input
  let parted (separator : Char) : List String :=
    (Lines.splitAt separator text.toList).map String.ofList |>.filter (· ≠ "")
  let items := if has found '0' then parted '\x00'
    else match valueOf? found 'd' with
      | some d => parted (if d = "\\n" then '\n' else d.toList.headD '\n')
      | none =>
        if has found 'I' ∨ has found 'L' then
          (parted '\n').map fun line => String.ofList (line.toList.dropWhile isBlank)
        else inputWords (text.length + 1) text.toList none
  let commands := match valueOf? found 'I' with
    | some mark => items.map fun item => command.map fun (word : String) => word.replace mark item
    | none =>
      let size := max 1 (((valueOf? found 'n').orElse fun _ => valueOf? found 'L').bind
        (·.toNat?) |>.getD 100000)
      let groups := chunks size (items.length + 1) items
      let groups := if groups.isEmpty ∧ !has found 'r' then [[]] else groups
      groups.map (command ++ ·)
  let environment ← environment
  let channel ← Sh.addChannel .nothing
  Sh.setDescriptor 0 (some channel)
  let mut status := 0
  for words in commands do
    if has found 't' then Sh.complain (" ".intercalate words ++ "\n")
    match ← Sh.launch hooks (Program.searched environment) environment words with
    | .ok (.exited 0) => pure ()
    | .ok (.exited 255) =>
      say (words.headD "" ++ ": exited with status 255; aborting")
      return 124
    | .ok (.exited _) => status := 123
    | .ok (.killed signal) =>
      say (words.headD "" ++ ": terminated by signal " ++ toString signal)
      return 125
    | .error e =>
      say (words.headD "" ++ ": " ++ e.reason)
      return if e.startStatus = 127 then 127 else 126
  return status

def kill : Tool := fun _ arguments => do
  Sh.modifyShell fun s => { s with running? := none }
  Builtin.killCommand arguments

def test (name : String) : Tool := fun _ arguments => Builtin.testCommand name arguments

def pwd : Tool := fun _ _ => do
  Sh.print ((← Builtin.directoryPath) ++ "\n")
  return 0

def constant (line : String) : Tool := fun _ _ => do
  Sh.print (line ++ "\n")
  return 0

def uname : Tool := fun _ arguments => do
  let (found, _) ← ({
    letters := "asnrvmpio", names := [("all", 'a'), ("kernel-name", 's'), ("machine", 'm')]
    status := 1, ordered := false } : Options).read arguments
  Sh.print (if has found 'm' ∧ found.length = 1 then "x86_64\n"
    else if has found 'o' ∧ found.length = 1 then "GNU/Linux\n"
    else "Linux\n")
  return 0

end MapleCompiler.Script.Tool
