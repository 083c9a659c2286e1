/-!
# Places in a source text

A source text is a sequence of characters, and every place in it is measured
in **bytes of its UTF-8 form**: a `Position` holds the number of bytes before
the place, its line and its column, and `Position.next` moves a position past
one character. A `Span` is a stretch of a text, given by where it starts and
how many bytes it covers.

Lines and columns count from one. Only a line feed ends a line; a column is
one more than the number of bytes since the line began.
-/

namespace MapleCompiler

/-- **A place in a text**: the bytes before it, its line and its column. -/
structure Position where
  /-- The number of bytes before the place. -/
  offset : Nat
  /-- The line, from one. -/
  line : Nat
  /-- The column in bytes, from one. -/
  column : Nat
deriving DecidableEq

namespace Position

/-- The place before the first character. -/
def start : Position := ⟨0, 1, 1⟩

/-- The place after the character `c`, for a `c` that stands at `p`. -/
def next (p : Position) (c : Char) : Position :=
  if c = '\n' then ⟨p.offset + 1, p.line + 1, 1⟩
  else ⟨p.offset + c.utf8Size, p.line, p.column + c.utf8Size⟩

/-- The place after the characters `cs`, for a text whose remainder at `p`
begins with them. -/
def after (p : Position) (cs : List Char) : Position :=
  cs.foldl next p

@[simp] theorem after_nil (p : Position) : p.after [] = p := rfl

@[simp] theorem after_cons (p : Position) (c : Char) (cs : List Char) :
    p.after (c :: cs) = (p.next c).after cs := rfl

end Position

/-- **A stretch of a text**, for messages that point at it. -/
structure Span where
  /-- The number of bytes before it. -/
  offset : Nat
  /-- The number of bytes it covers. -/
  length : Nat
  /-- The line it starts on, from one. -/
  line : Nat
  /-- The column it starts at, in bytes, from one. -/
  column : Nat
deriving DecidableEq

/-- The stretch of `length` bytes that starts at `p`. -/
def Position.span (p : Position) (length : Nat) : Span :=
  ⟨p.offset, length, p.line, p.column⟩

end MapleCompiler
