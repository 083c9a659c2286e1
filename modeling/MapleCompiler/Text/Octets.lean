/-!
# Texts as bytes

What programs write to files and streams is a sequence of bytes and need not
be a text. Here such a sequence is a `String` in which every character stands
for the byte of its number, so that cutting and joining bytes is cutting and
joining strings; a text of ASCII characters stands for itself.

`ofText` gives the bytes of a text in UTF-8. `decode` reads bytes as UTF-8 and
marks every stretch that is no character; `toText` puts the replacement
character in its place, and `text?` refuses it.
-/

namespace MapleCompiler.Octets

/-- The bytes of a text. -/
def ofText (text : String) : String :=
  String.ofList (text.toUTF8.toList.map fun b => Char.ofNat b.toNat)

/-- A character of which some bytes are still to come. -/
structure Pending where
  /-- How many bytes are to come. -/
  wanted : Nat
  /-- The number that the bytes so far denote. -/
  value : Nat
  /-- The least value of the next byte. -/
  low : Nat
  /-- The greatest value of the next byte. -/
  high : Nat

/-- What the first byte of a character of several bytes announces. -/
def lead? (b : Nat) : Option Pending :=
  if 0xC2 ≤ b ∧ b ≤ 0xDF then some ⟨1, b - 0xC0, 0x80, 0xBF⟩
  else if b = 0xE0 then some ⟨2, 0, 0xA0, 0xBF⟩
  else if b = 0xED then some ⟨2, 0xD, 0x80, 0x9F⟩
  else if 0xE1 ≤ b ∧ b ≤ 0xEF then some ⟨2, b - 0xE0, 0x80, 0xBF⟩
  else if b = 0xF0 then some ⟨3, 0, 0x90, 0xBF⟩
  else if 0xF1 ≤ b ∧ b ≤ 0xF3 then some ⟨3, b - 0xF0, 0x80, 0xBF⟩
  else if b = 0xF4 then some ⟨3, 4, 0x80, 0x8F⟩
  else none

/-- What a byte at the front of a character gives: the characters it completes,
where `none` is a fault, and the character it begins. -/
def begin (c : Char) : List (Option Char) × Option Pending :=
  if c.toNat < 0x80 then ([some c], none)
  else
    match lead? c.toNat with
    | some pending => ([], some pending)
    | none => ([none], none)

/-- What a byte gives after a character was begun. A byte that does not fit
breaks that character off and begins another. -/
def proceed (p : Pending) (c : Char) : List (Option Char) × Option Pending :=
  let b := c.toNat
  if p.low ≤ b ∧ b ≤ p.high then
    let value := 64 * p.value + (b - 0x80)
    if p.wanted ≤ 1 then ([some (Char.ofNat value)], none)
    else ([], some ⟨p.wanted - 1, value, 0x80, 0xBF⟩)
  else
    let (chars, pending?) := begin c
    (none :: chars, pending?)

/-- The characters that bytes denote after a character was begun. -/
def decodeFrom : Option Pending → List Char → List (Option Char)
  | none, [] => []
  | some _, [] => [none]
  | pending?, c :: cs =>
    let (chars, pending?) := match pending? with
      | none => begin c
      | some p => proceed p c
    chars ++ decodeFrom pending? cs

/-- **The characters that bytes denote**, with `none` for what is no
character. -/
def decode (octets : String) : List (Option Char) := decodeFrom none octets.toList

/-- Bytes as a text, with the replacement character for what is no character. -/
def toText (octets : String) : String :=
  String.ofList ((decode octets).map fun c? => c?.getD '�')

/-- Bytes as a text, if they are one. -/
def text? (octets : String) : Option String :=
  let chars := decode octets
  if chars.all Option.isSome then some (String.ofList (chars.filterMap id)) else none

end MapleCompiler.Octets
