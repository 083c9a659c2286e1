/-!
# Lines of generated code

Generated code is a list of lines, each with its depth of nesting. A line is
written with four blanks for every level and a line feed at its end; an empty
line has depth zero, so that no line ends in blanks.
-/

namespace MapleCompiler.Cpp

/-- **A line of code** and how deep it stands. -/
structure Line where
  depth : Nat
  text : String
deriving DecidableEq

namespace Line

/-- A line without text. -/
def blank : Line := ⟨0, ""⟩

/-- A line outside of all blocks. -/
def flush (text : String) : Line := ⟨0, text⟩

/-- The blanks before a line. -/
def indentation : Nat → String
  | 0 => ""
  | depth + 1 => "    " ++ indentation depth

/-- A line as it is written. -/
def render (line : Line) : String := indentation line.depth ++ line.text ++ "\n"

end Line

/-- Lines as they are written. -/
def render (lines : List Line) : String := String.join (lines.map Line.render)

end MapleCompiler.Cpp
