/-!
# Coloured text

Messages for a terminal mark parts of their text with a colour. A mark is an
escape sequence before the text and a reset after it; both are written even
around an empty text. With colour off a painted text is the text itself.
-/

namespace MapleCompiler

/-- A colour of the terminal. -/
inductive Colour
  | red
  | green
  | yellow
  | blue
  | cyan
deriving DecidableEq

/-- The number that selects a colour for the foreground. -/
def Colour.code : Colour → String
  | .red => "31"
  | .green => "32"
  | .yellow => "33"
  | .blue => "34"
  | .cyan => "36"

/-- How a stretch of text looks. -/
structure Paint where
  /-- The colour of the letters. -/
  colour : Colour
  /-- Whether the letters are bold. -/
  bold : Bool

/-- The text in that look if `coloured` holds, and as it is otherwise. -/
def Paint.apply (paint : Paint) (coloured : Bool) (text : String) : String :=
  if coloured then
    let codes := (if paint.bold then "1;" else "") ++ paint.colour.code
    "\x1b[" ++ codes ++ "m" ++ text ++ "\x1b[0m"
  else text

/-- Plain letters of a colour. -/
def Colour.plain (c : Colour) : Paint := ⟨c, false⟩

/-- Bold letters of a colour. -/
def Colour.strong (c : Colour) : Paint := ⟨c, true⟩

end MapleCompiler
