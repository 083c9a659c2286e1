import MapleCompiler.Text.Paint

/-!
# Diagnostics

A diagnostic is what a reader of messages sees: a level, a code and a message,
and, when the finding has a place, the file, line and column with the line of
the text and a row of carets under the place. Help and notes follow. The line
number is written at the left margin, and the rows around it are shifted by as
many blanks as it has digits.
-/

namespace MapleCompiler

/-- How grave a finding is. -/
inductive Level
  | error
  | warning
deriving DecidableEq

/-- The word for a level. -/
def Level.word : Level → String
  | error => "error"
  | warning => "warning"

/-- How a level is painted. -/
def Level.paint : Level → Paint
  | error => Colour.red.strong
  | warning => Colour.yellow.strong

/-- A place in a file. -/
structure Location where
  file : String
  line : Nat
  column : Nat
  /-- How many bytes the finding covers. -/
  length : Nat
deriving DecidableEq

/-- A place in words. -/
def Location.display (l : Location) : String :=
  l.file ++ ":" ++ toString l.line ++ ":" ++ toString l.column

/-- **A finding for a reader.** -/
structure Diagnostic where
  level : Level
  code : String
  message : String
  location? : Option Location
  sourceLine? : Option String
  help? : Option String
  notes : List String
deriving DecidableEq

namespace Diagnostic

/-- A finding without a place. -/
def plain (level : Level) (code message : String) : Diagnostic :=
  ⟨level, code, message, none, none, none, []⟩

/-- A text a number of times. -/
def times (n : Nat) (c : Char) : String := String.ofList (List.replicate n c)

/-- The blanks and carets under the place of a finding. -/
def underline (l : Location) : String := times (l.column - 1) ' ' ++ times (max l.length 1) '^'

/-- The first row: level, code and message. -/
def headRow (coloured : Bool) (d : Diagnostic) : String :=
  d.level.paint.apply coloured d.level.word ++ "[" ++ Colour.cyan.plain.apply coloured d.code ++
    "]: " ++ d.message

/-- The rows that show the place of a finding. -/
def placeRows (coloured : Bool) (d : Diagnostic) (l : Location) : List String :=
  let blue := Colour.blue.plain.apply coloured
  let number := toString l.line
  let margin := times number.length ' '
  let sourceRows := match d.sourceLine? with
    | some source =>
      [Colour.blue.strong.apply coloured number ++ " " ++ blue "|" ++ " " ++ source,
        margin ++ " " ++ blue "|" ++ " " ++ d.level.paint.apply coloured (underline l)]
    | none => []
  [margin ++ "--> " ++ blue l.display, margin ++ " " ++ blue "|"] ++ sourceRows ++
    [margin ++ " " ++ blue "|"]

/-- A row below the place: help or a note. -/
def remarkRow (coloured : Bool) (paint : Paint) (word text : String) : String :=
  "   " ++ Colour.blue.plain.apply coloured "=" ++ " " ++ paint.apply coloured word ++ ": " ++ text

/-- The rows of a diagnostic. -/
def rows (coloured : Bool) (d : Diagnostic) : List String :=
  let place := match d.location? with
    | some l => placeRows coloured d l
    | none => []
  let help := match d.help? with
    | some text => [remarkRow coloured Colour.green.strong "help" text]
    | none => []
  headRow coloured d :: place ++ help ++
    d.notes.map (remarkRow coloured Colour.cyan.strong "note")

/-- **A diagnostic as it is shown.** -/
def render (coloured : Bool) (d : Diagnostic) : String :=
  String.join ((rows coloured d).map (· ++ "\n"))

end Diagnostic

end MapleCompiler
