import MapleCompiler.Host.Script.Arithmetic
import MapleCompiler.Host.Script.Pattern
import MapleCompiler.Host.Script.Process

/-!
# What words stand for

A word of a script stands for texts. Its parts are replaced by their values one
after another; then the values that are not quoted are split into fields at
the separators, and a field with a pattern becomes the paths that it matches.

On the way a character is a `Mark`, which remembers where it comes from: quoted
characters keep their meaning, characters of unquoted values can part fields,
and characters that stand in the script cannot.
-/

namespace MapleCompiler.Script

/-- A character of a word whose parts are replaced. -/
inductive Mark
  | fixed (c : Char)
  /-- An unquoted character of the script. -/
  | plain (c : Char)
  /-- A character of an unquoted value. -/
  | soft (c : Char)
  /-- Something quoted stands here, even if it has no characters. -/
  | present
  /-- Here one quoted parameter ends and the next one begins. -/
  | gap
  /-- Here one unquoted parameter ends and the next one begins. -/
  | pause
  /-- Here an unquoted value begins. -/
  | edge

namespace Mark

def ofValue (text : String) (quoted : Bool) : List Mark :=
  if quoted then present :: text.toList.map fixed else edge :: text.toList.map soft

def soften : Mark → Mark
  | plain c => soft c
  | mark => mark

/-- The character of a mark, and whether it can be special in a pattern. -/
def marked? : Mark → Option (Char × Bool)
  | fixed c => some (c, false)
  | plain c => some (c, true)
  | soft c => some (c, true)
  | present | gap | pause | edge => none

def pattern (marks : List Mark) : MarkedText := marks.filterMap marked?

def text (marks : List Mark) : String := (pattern marks).text

end Mark

/-- The fields of a word while it is split. -/
structure Splitting where
  /-- The fields so far, last one first. -/
  done : List MarkedText
  /-- The field that is being read, last character first. -/
  current : MarkedText
  /-- Whether there is such a field, even if it is empty. -/
  begun : Bool
  /-- Whether a blank ended the last field, and no other separator yet. -/
  afterBlank : Bool

namespace Splitting

def close (s : Splitting) : Splitting :=
  { s with done := s.current.reverse :: s.done, current := [], begun := false }

def add (s : Splitting) (c : Char) (special : Bool) : Splitting :=
  { s with current := (c, special) :: s.current, begun := true }

def pass (s : Splitting) : Splitting :=
  if s.begun then { s.close with afterBlank := true } else s

/-- The next mark. A blank that separates ends a field; any other separator ends
one too, which may be empty unless such a blank of the same value is before it. -/
def step (separators : List Char) (s : Splitting) : Mark → Splitting
  | .fixed c => s.add c false
  | .plain c => s.add c true
  | .present => { s with begun := true }
  | .gap => { (if s.begun then s.close else s) with afterBlank := false }
  | .pause => s.pass
  | .edge => { s with afterBlank := false }
  | .soft c =>
    if !separators.contains c then s.add c true
    else if c = ' ' ∨ c = '\t' ∨ c = '\n' then s.pass
    else if s.begun then { s.close with afterBlank := false }
    else if s.afterBlank then { s with afterBlank := false }
    else s.close

/-- **The fields of marks.** -/
def fields (separators : List Char) (marks : List Mark) : List MarkedText :=
  let s := marks.foldl (step separators) ⟨[], [], false, false⟩
  (if s.begun then s.close else s).done.reverse

end Splitting

namespace Sh

def optionLetters : List Char := "pubaCEVvxsnmiIfe".toList

/-- The value of a parameter that stands for one text, if it is set. -/
def parameter? (name : String) : Sh (Option String) := do
  let s ← shell
  match name with
  | "#" => return some (toString s.parameters.length)
  | "?" => return some (toString s.status)
  | "$" => return some (toString s.process)
  | "!" => return s.lastJob?.map toString
  | "-" => return some (String.ofList (optionLetters.filter s.options.contains))
  | "0" => return some s.name
  | _ =>
    if name.toList.all Char.isDigit then
      let n := digitsValue 10 name.toList
      return if n = 0 then some s.name else s.parameters[n - 1]?
    else value? name

def gapChar : Char := '\x00'

/-- All parameters in one text. They stay apart where fields can be made, unless
they are quoted as one or their length is asked for; elsewhere the first separator
is between them. -/
def parametersText (name : String) (quoted splits : Bool) (change : Change) : Sh String := do
  let between ← match ← known? "IFS" with
    | some ⟨some value, _, _⟩ => pure (String.ofList (value.toList.take 1))
    | _ => pure " "
  let counted := match change with
    | .length => true
    | _ => false
  let apart := splits && !counted && (name == "@" || !quoted)
  return (if apart then gapChar.toString else between).intercalate (← shell).parameters

/-- The marks of a text that all parameters are in. Where there are none, no field
is made of them, unless they were to be changed. -/
def parametersMarks (name : String) (quoted : Bool) (change : Change) (text : String) :
    Sh (List Mark) := do
  let unchanged := match change with
    | .none => true
    | _ => false
  let marks := text.toList.flatMap fun c =>
    if c ≠ gapChar then [if quoted then Mark.fixed c else .soft c]
    else if quoted then [.gap, .present]
    else [.pause]
  let marks := if quoted then marks else .edge :: marks
  if !quoted || unchanged && name == "@" && (← shell).parameters.isEmpty then return marks
  else return .present :: marks

/-- The home directory of a user, or of the one who runs the process. -/
def home? (user : String) : Sh (Option String) := do
  if user = "" then value? "HOME"
  else if user = "root" then return some "/root"
  else return none

/-- The marks of a text that may begin with a tilde for a home directory, where
`ends` says whether the text is all there is. -/
def tildeMarks (text : List Char) (ends : Bool) : Sh (List Mark) := do
  match text with
  | '~' :: cs =>
    let user := cs.takeWhile fun c => isNameChar c || c == '-' || c == '.'
    let rest := cs.drop user.length
    if rest.head? = some '/' ∨ (rest = [] ∧ ends) then
      match ← home? (String.ofList user) with
      | some directory => return Mark.ofValue directory true ++ rest.map .plain
      | none => return text.map .plain
    else return text.map .plain
  | _ => return text.map .plain

/-- The marks of the stretches of a text between its colons, each of which may
begin with a tilde. -/
def tildeListMarks (first ends : Bool) : List (List Char) → Sh (List Mark)
  | [] => return []
  | [last] => if first then tildeMarks last ends else return last.map .plain
  | stretch :: rest => do
    let front ← if first then tildeMarks stretch true else pure (stretch.map .plain)
    return front ++ .plain ':' :: (← tildeListMarks true ends rest)

end Sh

/-- Where a tilde in a word stands for a home directory. -/
inductive Tildes
  | nowhere
  | front
  /-- At the front of a value and behind its colons. -/
  | list
  /-- Behind the colons of a value. -/
  | colons
deriving DecidableEq

/-- Where a tilde counts in the parts behind the first one. -/
def Tildes.behind : Tildes → Tildes
  | list => colons
  | colons => colons
  | _ => nowhere

mutual

/-- The marks of a part. Fields can be made only where `splits` holds; `ends` says
whether no other part follows. -/
def partMarks (hooks : Hooks) (splits : Bool) (tildes : Tildes) (ends : Bool) :
    Part → Sh (List Mark)
  | .text text quoted =>
    if quoted then return Mark.ofValue text true
    else
      match tildes with
      | .nowhere => return .edge :: text.toList.map .plain
      | .front => return .edge :: (← Sh.tildeMarks text.toList ends)
      | .list => Sh.tildeListMarks true ends (Lines.splitAt ':' text.toList)
      | .colons => Sh.tildeListMarks false ends (Lines.splitAt ':' text.toList)
  | .output command quoted => do
    let text ← Sh.output hooks command
    let kept := (text.toList.reverse.dropWhile (· == '\n')).reverse.filter (· != '\x00')
    return Mark.ofValue (String.ofList kept) quoted
  | .arithmetic expression quoted => do
    let text := Mark.text (← wordMarks hooks false .nowhere expression)
    return Mark.ofValue (toString (← Expression.evaluate text)) quoted
  | .parameter name change quoted => do
    if name == "@" || name == "*" then
      changeMarks hooks splits name quoted
        (some (← Sh.parametersText name quoted splits change))
        (Sh.parametersMarks name quoted change) change
    else
      changeMarks hooks splits name quoted (← Sh.parameter? name)
        (fun text => return Mark.ofValue text quoted) change

/-- The marks of a parameter after a change. Its value, if it is set, is a text,
and `marks` are those of such a text. -/
def changeMarks (hooks : Hooks) (splits : Bool) (name : String) (quoted : Bool)
    (value? : Option String) (marks : String → Sh (List Mark)) : Change → Sh (List Mark)
  | .none => do
    if value?.isNone && (← Sh.hasOption 'u') then Sh.fail (name ++ ": parameter not set") 2
    marks (value?.getD "")
  | .length => do
    if value?.isNone && (← Sh.hasOption 'u') then Sh.fail (name ++ ": parameter not set") 2
    return Mark.ofValue (toString (value?.getD "").length) quoted
  | .fallback orEmpty word => do
    if value?.isNone || orEmpty && value? == some "" then
      let tildes := if quoted then Tildes.nowhere else .front
      let marks ← wordMarks hooks splits tildes word
      return if quoted then .present :: marks else marks.map Mark.soften
    else marks (value?.getD "")
  | .assign orEmpty word => do
    if value?.isNone || orEmpty && value? == some "" then
      let tildes := if quoted then Tildes.nowhere else .front
      let text := Mark.text (← wordMarks hooks false tildes word)
      if !isName name then Sh.fail (name ++ ": bad variable name") 2
      Sh.assign name text
      return Mark.ofValue text quoted
    else marks (value?.getD "")
  | .demand orEmpty word => do
    if value?.isNone || orEmpty && value? == some "" then
      let text := Mark.text (← wordMarks hooks false .nowhere word)
      let message := if !word.isEmpty then text
        else if orEmpty then "parameter not set or null"
        else "parameter not set"
      Sh.fail (name ++ ": " ++ message) 2
    else marks (value?.getD "")
  | .instead orEmpty word => do
    if value?.isNone || orEmpty && value? == some "" then
      return if quoted then [.present] else []
    else
      let tildes := if quoted then Tildes.nowhere else .front
      let marks ← wordMarks hooks splits tildes word
      return if quoted then .present :: marks else marks.map Mark.soften
  | .trim side longest pattern => do
    match value? with
    | none =>
      if ← Sh.hasOption 'u' then Sh.fail (name ++ ": parameter not set") 2
      marks ""
    | some value =>
      let found ← wordMarks hooks false .nowhere pattern
      marks (Pattern.trim Sh.gapChar (Mark.pattern found) (side == .front) longest value)
  | .invalid => Sh.fail "Bad substitution" 2

def wordMarks (hooks : Hooks) (splits : Bool) (tildes : Tildes) : List Part → Sh (List Mark)
  | [] => return []
  | part :: rest => do
    let first ← partMarks hooks splits tildes rest.isEmpty part
    return first ++ (← wordMarks hooks splits tildes.behind rest)

end

namespace Sh

def wordText (hooks : Hooks) (word : Word) : Sh String := do
  return Mark.text (← wordMarks hooks false .front word)

def assignedText (hooks : Hooks) (word : Word) : Sh String := do
  return Mark.text (← wordMarks hooks false .list word)

def wordPattern (hooks : Hooks) (word : Word) : Sh MarkedText := do
  return Mark.pattern (← wordMarks hooks false .front word)

/-- **The texts that a word stands for.** -/
def fields (hooks : Hooks) (word : Word) : Sh (List String) := do
  let marks ← wordMarks hooks true .front word
  let found := Splitting.fields (← separators) marks
  if ← hasOption 'f' then return found.map MarkedText.text
  else
    let tree ← tree
    return found.flatMap fun field =>
      if Pattern.isActive field then
        match Pattern.paths tree field with
        | [] => [field.text]
        | paths => paths
      else [field.text]

end Sh

end MapleCompiler.Script
