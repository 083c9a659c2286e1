import MapleCompiler.Fault
import MapleCompiler.Token.Keyword

/-!
# Reading a text into tokens

`Token.scan` reads a text from left to right. At each place it asks
`Piece.read` what begins there: a blank or a comment, which is passed over, a
lexeme, which becomes a token, or a character that begins nothing. A lexeme is
always the longest one that begins at its place.

The reading is one pass over the characters: `scanFrom` carries the number of
characters of the current piece that are still to be passed, so it recurses on
the text itself.
-/

namespace MapleCompiler

/-- Whether a character can begin a word. -/
def isWordStart (c : Char) : Bool := c == '_' || c.isAlpha

/-- Whether a character can stand inside a word. -/
def isWordChar (c : Char) : Bool := c == '_' || c.isAlphanum

/-- Whether a character only separates lexemes. -/
def isBlank (c : Char) : Bool := c == ' ' || c == '\t' || c == '\r' || c == '\n'

/-- **What begins at a place of a text.** The count `more` says how many
characters belong to it after the first. -/
inductive Piece
  /-- A blank or a comment. -/
  | gap (more : Nat)
  /-- A lexeme of a kind. -/
  | lexeme (kind : TokenKind) (more : Nat)
  /-- A character that begins no lexeme. -/
  | illegal
deriving DecidableEq

namespace Piece

/-- How many characters at the front of `cs` satisfy `p`. -/
def runLength (p : Char → Bool) (cs : List Char) : Nat := (cs.takeWhile p).length

/-- A number, after its first digit: digits, and a fraction if a digit follows
the point. -/
def number (cs : List Char) : Piece :=
  let whole := runLength Char.isDigit cs
  match cs.drop whole with
  | '.' :: c :: rest =>
    if c.isDigit then lexeme .number (whole + 2 + runLength Char.isDigit rest)
    else lexeme .number whole
  | _ => lexeme .number whole

/-- A library name after its `@`, or the qualifier of a call if two colons
follow it. -/
def libraryName (cs : List Char) : Piece :=
  let word := runLength isWordChar cs
  if word = 0 then illegal
  else
    match cs.drop word with
    | ':' :: ':' :: _ => lexeme .qualifier (word + 2)
    | _ => lexeme .libraryName word

/-- A word that begins with `c`: reserved, or an identifier. -/
def word (d : Dialect) (c : Char) (cs : List Char) : Piece :=
  let more := runLength isWordChar cs
  let text := String.ofList (c :: cs.take more)
  lexeme ((d.keyword? text).getD .identifier) more

/-- The longest mark that begins with `c`. -/
def mark (d : Dialect) (c : Char) (cs : List Char) : Piece :=
  match d.marks.find? (·.1.isPrefixOf (c :: cs)) with
  | some (text, kind) => lexeme kind (text.length - 1)
  | none => illegal

/-- Whether a comment begins with `c`. -/
def startsComment (d : Dialect) (c : Char) (cs : List Char) : Bool :=
  d.supports .comments && c == '/' && cs.head? == some '/'

/-- **The piece that begins with `c`** in a text that goes on with `cs`. -/
def read (d : Dialect) (c : Char) (cs : List Char) : Piece :=
  if isBlank c then gap 0
  else if startsComment d c cs then gap (runLength (· != '\n') cs)
  else if c.isDigit then number cs
  else if c == '@' && d.supports .libraries then libraryName cs
  else if isWordStart c then word d c cs
  else mark d c cs

end Piece

namespace Token

/-- The tokens of the text `cs` that begins at `p`, after its first `skip`
characters, which belong to a piece that was read already. -/
def scanFrom (d : Dialect) : List Char → Nat → Position → Except CompileError (List Token)
  | [], _, p => .ok [eof p]
  | c :: cs, skip + 1, p => scanFrom d cs skip (p.next c)
  | c :: cs, 0, p =>
    match Piece.read d c cs with
    | .gap more => scanFrom d cs more (p.next c)
    | .lexeme kind more => do
      let rest ← scanFrom d cs more (p.next c)
      return ⟨kind, String.ofList (c :: cs.take more), p⟩ :: rest
    | .illegal => .error (.atSpan (.illegalCharacter c) (p.span c.utf8Size))

/-- **The tokens of a text**, the last one its end. -/
def scan (d : Dialect) (source : String) : Except CompileError (List Token) :=
  scanFrom d source.toList 0 .start

end Token

end MapleCompiler
