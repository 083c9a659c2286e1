import MapleCompiler.Text.Span
import MapleCompiler.Token.Kind

/-!
# Tokens

A token is a lexeme with its kind and its place. Its width is the number of
bytes of the lexeme; the span a message points at covers at least one byte, so
that the end of a text can be pointed at too.
-/

namespace MapleCompiler

/-- **A lexeme with its kind and its place.** -/
structure Token where
  kind : TokenKind
  lexeme : String
  place : Position
deriving DecidableEq

namespace Token

/-- The end of a text, at `p`. -/
def eof (p : Position) : Token := ⟨.eof, "", p⟩

/-- The number of bytes of the lexeme. -/
def width (t : Token) : Nat := t.lexeme.utf8ByteSize

/-- The stretch a message about the token points at. -/
def span (t : Token) : Span := t.place.span (max t.width 1)

/-- The end of a text that stops right after `t`. A lexeme holds no line feed,
so the line is that of `t`. -/
def eofAfter (t : Token) : Token :=
  eof ⟨t.place.offset + t.width, t.place.line, t.place.column + t.width⟩

/-- The token in a listing. -/
def display (t : Token) : String :=
  t.kind.name ++ "('" ++ t.lexeme ++ "') @ " ++ toString t.place.line ++ ":" ++
    toString t.place.column

end Token

end MapleCompiler
