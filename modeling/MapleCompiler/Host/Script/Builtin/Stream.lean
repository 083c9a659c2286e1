import MapleCompiler.Host.Script.Builtin.Format
import MapleCompiler.Host.Script.Builtin.State

/-!
# Built-in commands that read and write

`echo` and `printf` write their arguments; `read` takes a line of the input
apart. A line is read up to its end and no further, so that the next command
finds the line after it.
-/

namespace MapleCompiler.Script.Builtin

/-- Texts with their escapes replaced and blanks between them, up to an escape
that ends all output; whether there was one. -/
def echoed (wide : Bool) : List String → String × Bool
  | [] => ("", false)
  | [last] => Format.unescape wide last
  | first :: rest =>
    let (text, ends) := Format.unescape wide first
    if ends then (text, true)
    else
      let (more, ends) := echoed wide rest
      (text ++ " " ++ more, ends)

def echoCommand (arguments : List String) : Sh Nat := do
  let (arguments, quiet) := match arguments with
    | "-n" :: rest => (rest, true)
    | _ => (arguments, false)
  let (text, ends) := echoed false arguments
  Sh.print (if quiet || ends then text else text ++ "\n")
  return 0

def flawText (argument : String) : Format.Flaw → String
  | .notNumeric => argument ++ ": expected numeric value"
  | .unfinished => argument ++ ": not completely converted"
  | .outOfRange => argument ++ ": Numerical result out of range"

def printfCommand (arguments : List String) : Sh Nat := do
  let (_, rest) ← letters "" arguments
  match rest with
  | [] => Sh.fail "usage: printf format [arg ...]" 2
  | format :: rest =>
    let use := Format.use false format rest
    for (argument, flaw) in use.flaws do
      Sh.warn (flawText argument flaw)
    Sh.print use.text
    match use.fault? with
    | some message => Sh.fail message 2
    | none => return if use.flaws.isEmpty then 0 else 1

/-- A line at the front of some bytes: its characters, those that were escaped
marked; how many bytes it takes, and whether it has an end. -/
def lineFrom (raw : Bool) : List Char → List (Char × Bool) → Nat → List (Char × Bool) × Nat × Bool
  | [], line, taken => (line.reverse, taken, false)
  | '\\' :: rest, line, taken =>
    if raw then lineFrom raw rest (('\\', false) :: line) (taken + 1)
    else
      match rest with
      | [] => (line.reverse, taken + 1, false)
      | '\n' :: rest => lineFrom raw rest line (taken + 2)
      | c :: rest => lineFrom raw rest ((c, true) :: line) (taken + 2)
  | c :: rest, line, taken =>
    if c = '\n' then (line.reverse, taken + 1, true)
    else if c = '\x00' then lineFrom raw rest line (taken + 1)
    else lineFrom raw rest ((c, false) :: line) (taken + 1)

/-- A line while it is taken apart. -/
structure LineSplitting where
  /-- The fields so far, last one first. -/
  done : List String := []
  /-- The field that is being read, last character first. -/
  current : List Char := []
  /-- How many more separators may end a field; the last one of them begins the end
  of the line, which stays together. -/
  left : Nat
  /-- How much of the end of the line counts, if not all of it. -/
  length? : Option Nat := none
  /-- Whether the last separator was a blank. -/
  afterBlank : Bool := false

namespace LineSplitting

def add (s : LineSplitting) (c : Char) : LineSplitting := { s with current := c :: s.current }

/-- The next character, which may have been escaped. A character that was escaped
does not separate. Of the end of the line only blanks are cut off, and a single
separator with blanks around it. -/
def step (separators : List Char) (s : LineSplitting) (next : Char × Bool) : LineSplitting :=
  let (c, escaped) := next
  let separates := separators.contains c
  let blank := separates && (c == ' ' || c == '\t' || c == '\n')
  if escaped then { s.add c with afterBlank := false }
  else if s.left = 0 then
    if blank then { s.add c with length? := s.length?.or (some s.current.length) }
    else
      { s.add c with
        length? := if separates && s.afterBlank then s.length? else none
        afterBlank := false }
  else if !separates then s.add c
  else if s.current.isEmpty && blank then s
  else if s.current.isEmpty && s.afterBlank then { s with afterBlank := false }
  else if s.left = 1 then
    { s.add c with left := 0, length? := some s.current.length, afterBlank := blank }
  else
    { s with
      done := String.ofList s.current.reverse :: s.done, current := []
      left := s.left - 1, afterBlank := blank }

def fields (separators : List Char) (count : Nat) (line : List (Char × Bool)) : List String :=
  let s := line.foldl (step separators) { left := count }
  let text := s.current.reverse
  s.done.reverse ++ [String.ofList (text.take (s.length?.getD text.length))]

end LineSplitting

def readCommand (arguments : List String) : Sh Nat := do
  let (options, names) ← letters "p:r" arguments
  if names.isEmpty then Sh.fail "arg count" 2
  let raw := options.any (·.1 == 'r')
  let (line, taken, ended) := lineFrom raw ((← Sh.waiting? 0).getD "").toList [] 0
  Sh.consume 0 taken
  let values := LineSplitting.fields (← Sh.separators) names.length line
  for (name, i) in names.zipIdx do
    checkName name
    Sh.assign name (values.getD i "")
  return if ended then 0 else 1

end MapleCompiler.Script.Builtin
