import MapleCompiler.Host.Script.Arithmetic

/-!
# Texts made by a format

A format is a text in which escapes stand for characters and directives for
arguments. A directive says how an argument is written: as a number in some
base, as a decimal fraction or as a text, how wide, and how precisely. A format
is used again as long as arguments are left.

Fractions are written from the exact value of the floating-point number that
is nearest to the argument; what lies half way goes to the even neighbour.
-/

namespace MapleCompiler.Script.Format

/-! ## Escapes -/

def isOctal (c : Char) : Bool := '0' ≤ c && c ≤ '7'

def escapeLetters : List (Char × Char) :=
  [('a', '\x07'), ('b', '\x08'), ('e', '\x1b'), ('f', '\x0c'), ('n', '\n'), ('r', '\r'),
    ('t', '\t'), ('v', '\x0b'), ('\\', '\\')]

def isHex (c : Char) : Bool := c.isDigit || ('a' ≤ c && c ≤ 'f') || ('A' ≤ c && c ≤ 'F')

/-- The character of an escape after its backslash, and the text behind it. If
`wide` holds, there are also escapes of two digits of base sixteen, and of a
quote. -/
def escape (wide : Bool) (cs : List Char) : Char × List Char :=
  match cs with
  | [] => ('\\', [])
  | c :: rest =>
    if isOctal c then
      let digits := (cs.take 3).takeWhile isOctal
      (Char.ofNat (digitsValue 8 digits % 256), cs.drop digits.length)
    else if wide ∧ c = 'x' ∧ rest.head?.any isHex then
      let digits := (rest.take 2).takeWhile isHex
      (Char.ofNat (digitsValue 16 digits), rest.drop digits.length)
    else if wide ∧ c = '"' then ('"', rest)
    else
      match escapeLetters.lookup c with
      | some d => (d, rest)
      | none => ('\\', cs)

/-- A text with its escapes replaced, and whether one of them ends all
output. -/
def unescapeFrom (wide : Bool) : Nat → List Char → List Char × Bool
  | 0, _ => ([], false)
  | _, [] => ([], false)
  | _, '\\' :: 'c' :: _ => ([], true)
  | budget + 1, '\\' :: cs =>
    let (c, rest) := match cs with
      | '0' :: d :: _ => escape wide (if isOctal d then cs.tail else cs)
      | _ => escape wide cs
    let (text, ends) := unescapeFrom wide budget rest
    (c :: text, ends)
  | budget + 1, c :: cs =>
    let (text, ends) := unescapeFrom wide budget cs
    (c :: text, ends)

/-- A text with its escapes replaced, and whether one of them ends all
output. -/
def unescape (wide : Bool) (text : String) : String × Bool :=
  let (cs, ends) := unescapeFrom wide (text.length + 1) text.toList
  (String.ofList cs, ends)

/-! ## Directives -/

/-- How an argument is written. -/
structure Directive where
  left : Bool
  plus : Bool
  space : Bool
  zero : Bool
  alternate : Bool
  width : Nat
  precision? : Option Nat
  conversion : Char

namespace Directive

def fill (d : Directive) (sign body : String) (zeros : Bool) : String :=
  let missing := d.width - (sign.length + body.length)
  if d.left then sign ++ body ++ "".pushn ' ' missing
  else if zeros then sign ++ "".pushn '0' missing ++ body
  else "".pushn ' ' missing ++ sign ++ body

def sign (d : Directive) (negative : Bool) : String :=
  if negative then "-" else if d.plus then "+" else if d.space then " " else ""

def ofText (d : Directive) (text : String) : String :=
  let cut := match d.precision? with
    | some n => String.ofList (text.toList.take n)
    | none => text
  d.fill "" cut false

def digits (base : Nat) (upper : Bool) (n : Nat) : String :=
  let text := String.ofList (Nat.toDigits base n)
  if upper then text.toUpper else text

def ofInt (d : Directive) (n : Int) : String :=
  let base := match d.conversion with
    | 'o' => 8
    | 'x' | 'X' => 16
    | _ => 10
  let signed := d.conversion = 'd' ∨ d.conversion = 'i'
  let size := if signed then n.natAbs else Expression.bits n
  let plain :=
    if size = 0 ∧ d.precision? = some 0 then "" else digits base (d.conversion = 'X') size
  let body := "".pushn '0' (d.precision?.getD 0 - plain.length) ++ plain
  let body := if d.alternate ∧ d.conversion = 'o' ∧ !body.startsWith "0" then "0" ++ body else body
  let mark := if d.alternate ∧ size ≠ 0 then
      match d.conversion with
      | 'x' => "0x"
      | 'X' => "0X"
      | _ => ""
    else ""
  d.fill ((if signed then d.sign (n < 0) else "") ++ mark) body (d.zero && d.precision?.isNone)

/-- A quotient rounded to a whole number; a half goes to the even one. -/
def rounded (num den : Nat) : Nat :=
  let q := num / den
  let r := 2 * (num % den)
  if r > den ∨ (r = den ∧ q % 2 = 1) then q + 1 else q

/-- A number of which the last `places` digits are behind the point. -/
def pointed (n places : Nat) (point : Bool) : String :=
  let digits := (Nat.toDigits 10 n)
  let digits := List.replicate (places + 1 - digits.length) '0' ++ digits
  let whole := String.ofList (digits.take (digits.length - places))
  if places = 0 then (if point then whole ++ "." else whole)
  else whole ++ "." ++ String.ofList (digits.drop (digits.length - places))

/-- The power of ten of the first digit of a quotient, within `budget`. -/
def exponentOf : Nat → Nat → Nat → Int
  | 0, _, _ => 0
  | budget + 1, num, den =>
    if num = 0 then 0
    else if num < den then exponentOf budget (10 * num) den - 1
    else if 10 * den ≤ num then exponentOf budget num (10 * den) + 1
    else 0

/-- The digits of a quotient with one before the point, and the power of ten. -/
def scientific (num den places : Nat) : Nat × Int :=
  let e := exponentOf 1000 num den
  let scaled (e : Int) : Nat :=
    let shift := (places : Int) - e
    if shift ≥ 0 then rounded (num * Nat.pow 10 shift.toNat) den
    else rounded num (den * Nat.pow 10 (-shift).toNat)
  let n := scaled e
  if n ≥ Nat.pow 10 (places + 1) then (scaled (e + 1), e + 1) else (n, e)

def exponentText (e : Int) : String :=
  let digits := toString e.natAbs
  "e" ++ (if e < 0 then "-" else "+") ++ (if digits.length < 2 then "0" ++ digits else digits)

/-- A decimal fraction without the zeros at its end. -/
def dropZeros (text : String) : String :=
  if text.toList.contains '.' then
    let kept := text.toList.reverse.dropWhile (· == '0')
    String.ofList (if kept.head? = some '.' then kept.tail else kept).reverse
  else text

def fraction (d : Directive) (num den : Nat) : String :=
  let places := d.precision?.getD 6
  let text := match d.conversion.toLower with
    | 'f' => pointed (rounded (num * Nat.pow 10 places) den) places d.alternate
    | 'e' =>
      let (n, e) := scientific num den places
      pointed n places d.alternate ++ exponentText e
    | _ =>
      let figures := max places 1
      let (n, e) := scientific num den (figures - 1)
      if -4 ≤ e ∧ e < figures then
        let behind := ((figures : Int) - 1 - e).toNat
        let text := pointed (rounded (num * Nat.pow 10 behind) den) behind d.alternate
        if d.alternate then text else dropZeros text
      else
        let text := pointed n (figures - 1) d.alternate
        (if d.alternate then text else dropZeros text) ++ exponentText e
  if d.conversion.isUpper then text.toUpper else text

def ofFloat (d : Directive) (x : Float) : String :=
  let bits := x.toBits.toNat
  let negative := bits.testBit 63
  let exponent := (bits >>> 52) % 2048
  let mantissa := bits % 4503599627370496
  if exponent = 2047 then
    let name := if mantissa = 0 then "inf" else "nan"
    d.fill (d.sign negative) (if d.conversion.isUpper then name.toUpper else name) false
  else
    let m := if exponent = 0 then mantissa else mantissa + 4503599627370496
    let e : Int := (if exponent = 0 then 1 else (exponent : Int)) - 1075
    let (num, den) := if e ≥ 0 then (m <<< e.toNat, 1) else (m, 1 <<< (-e).toNat)
    d.fill (d.sign negative) (d.fraction num den) d.zero

end Directive

/-! ## Arguments -/

/-- What a numeric argument is wrong about. -/
inductive Flaw
  /-- It is no number. -/
  | notNumeric
  /-- Something stands behind the number. -/
  | unfinished
  | outOfRange

/-- The whole number that an argument denotes, perhaps by its first character. -/
def wholeArgument (text : String) (signed : Bool) : Int × Option Flaw :=
  match text.toList with
  | [] => (0, none)
  | '"' :: rest => ((rest.headD '\x00').toNat, none)
  | '\'' :: rest => ((rest.headD '\x00').toNat, none)
  | cs =>
    match signedAt? cs with
    | none => (0, some .notNumeric)
    | some (n, behind) =>
      let most := if signed then greatest else 2 * greatest + 1
      let least := if signed then -greatest - 1 else -2 * greatest - 1
      let held :=
        if n > most then most else if n < least then (if signed then least else most) else n
      (held, if behind ≠ [] then some .unfinished
        else if held ≠ n then some .outOfRange
        else none)

/-- The decimal number at the front of a text, and the text behind it. -/
def decimalAt? (cs : List Char) : Option (Float × List Char) :=
  let blankless := cs.dropWhile isBlank
  let negative := blankless.head? = some '-'
  let body := if negative ∨ blankless.head? = some '+' then blankless.tail else blankless
  let signed (x : Float) : Float := if negative then -x else x
  let lower := body.map Char.toLower
  if ['i', 'n', 'f'].isPrefixOf lower then
    let long := "infinity".toList.isPrefixOf lower
    some (signed (1.0 / 0.0), body.drop (if long then 8 else 3))
  else if ['n', 'a', 'n'].isPrefixOf lower then some (signed (0.0 / 0.0), body.drop 3)
  else
    let whole := body.takeWhile Char.isDigit
    let rest := body.drop whole.length
    let fraction := if rest.head? = some '.' then rest.tail.takeWhile Char.isDigit else []
    if whole = [] ∧ fraction = [] then none
    else
      let rest := if rest.head? = some '.' then rest.drop (fraction.length + 1) else rest
      let mantissa := digitsValue 10 (whole ++ fraction)
      let (exponent, rest) : Int × List Char := match rest with
        | c :: more =>
          if c = 'e' ∨ c = 'E' then
            let minus := more.head? = some '-'
            let digits := if minus ∨ more.head? = some '+' then more.tail else more
            let figures := digits.takeWhile Char.isDigit
            if figures = [] then (0, rest)
            else
              let n : Int := min (digitsValue 10 figures) 100000
              (if minus then -n else n, digits.drop figures.length)
          else (0, rest)
        | [] => (0, rest)
      let scale := exponent - fraction.length
      let x := if scale < 0 then Float.ofScientific mantissa true (-scale).toNat
        else Float.ofScientific mantissa false scale.toNat
      some (signed x, rest)

def floatArgument (text : String) : Float × Option Flaw :=
  match text.toList with
  | [] => (0.0, none)
  | '"' :: rest => ((rest.headD '\x00').toNat.toFloat, none)
  | '\'' :: rest => ((rest.headD '\x00').toNat.toFloat, none)
  | cs =>
    match decimalAt? cs with
    | none => (0.0, some .notNumeric)
    | some (x, behind) => (x, if behind = [] then none else some .unfinished)

/-! ## Using a format -/

def suits (flags : List Char) (hasWidth hasPrecision : Bool) (c : Char) : Bool :=
  if c == 'b' then flags.isEmpty && !hasWidth && !hasPrecision
  else
    "cdeEfFgGiosuxX".toList.contains c &&
      !(flags.contains '#' && "cdisu".toList.contains c) &&
      !(flags.contains '0' && (c == 'c' || c == 's')) && !(hasPrecision && c == 'c')

/-- What using a format has written and said. -/
structure Use where
  /-- Whether a directive has to suit its conversion; then there are more escapes
  too. -/
  strict : Bool
  arguments : List String
  asked : Bool
  text : String
  /-- Arguments that are wrong. -/
  flaws : List (String × Flaw)
  /-- What is wrong with the format, which ends its use. -/
  fault? : Option String
  /-- Whether an escape ended the use. -/
  ended : Bool

namespace Use

/-- Takes an argument; where none is left, it is empty. -/
def next (u : Use) : String × Use :=
  match u.arguments with
  | [] => ("", u)
  | a :: rest => (a, { u with arguments := rest, asked := true })

def note (u : Use) (argument : String) : Option Flaw → Use
  | none => u
  | some flaw => { u with flaws := u.flaws ++ [(argument, flaw)] }

def write (u : Use) (text : String) : Use := { u with text := u.text ++ text }

/-- A number at the front of a text or in the next argument, and the text
behind it. -/
def count (u : Use) (cs : List Char) : Option Int × List Char × Use :=
  match cs with
  | '*' :: rest =>
    let missing := u.arguments.isEmpty
    let (argument, u) := u.next
    let (n, flaw?) := wholeArgument argument true
    (if missing then some 0 else some n, rest, u.note argument flaw?)
  | _ =>
    let digits := cs.takeWhile Char.isDigit
    (if digits = [] then none else some (digitsValue 10 digits), cs.drop digits.length, u)

def convert (u : Use) (d : Directive) (shown : String) : Use :=
  match d.conversion with
  | 's' =>
    let (argument, u) := u.next
    u.write (d.ofText argument)
  | 'c' =>
    let (argument, u) := u.next
    u.write (d.fill "" (argument.toList.headD '\x00').toString false)
  | 'b' =>
    let (argument, u) := u.next
    let (text, ends) := unescape u.strict argument
    { u.write (d.ofText text) with ended := ends }
  | c =>
    if "diouxX".toList.contains c then
      let (argument, u) := u.next
      let (n, flaw?) := wholeArgument argument (c = 'd' ∨ c = 'i')
      (u.write (d.ofInt n)).note argument flaw?
    else if "eEfFgG".toList.contains c then
      let (argument, u) := u.next
      let (x, flaw?) := floatArgument argument
      (u.write (d.ofFloat x)).note argument flaw?
    else { u with fault? := some (shown ++ ": invalid directive") }

def directive (u : Use) (cs : List Char) : List Char × Use :=
  let flags := cs.takeWhile "#-+ 0".toList.contains
  let (width?, rest, u) := u.count (cs.drop flags.length)
  let (precision?, rest, u) : Option Int × List Char × Use := match rest with
    | '.' :: rest =>
      let (n?, rest, u) := u.count rest
      (some (n?.getD 0), rest, u)
    | _ => (none, rest, u)
  let rest := if u.strict then rest.dropWhile "lLhjtz".toList.contains else rest
  match rest with
  | [] => ([], { u with fault? := some "missing format character" })
  | c :: behind =>
    let width := width?.getD 0
    let d : Directive :=
      { left := flags.contains '-' || width < 0
        plus := flags.contains '+'
        space := flags.contains ' '
        zero := flags.contains '0'
        alternate := flags.contains '#'
        width := width.natAbs
        precision? := match precision? with
          | some n => if n < 0 then none else some n.toNat
          | none => none
        conversion := c }
    let shown := "%" ++ String.ofList (cs.take (cs.length - behind.length))
    if u.strict && !suits flags width?.isSome precision?.isSome c then
      (behind, { u with fault? := some (shown ++ ": invalid conversion specification") })
    else (behind, u.convert d shown)

def once : Nat → List Char → Use → Use
  | 0, _, u => u
  | _, [], u => u
  | budget + 1, c :: cs, u =>
    if u.ended || u.fault?.isSome then u
    else if u.strict ∧ c = '\\' ∧ cs.head? = some 'c' then { u with ended := true }
    else if c = '\\' then
      let (d, rest) := escape u.strict cs
      once budget rest (u.write d.toString)
    else if c = '%' then
      match cs with
      | '%' :: rest => once budget rest (u.write "%")
      | _ =>
        let (rest, u) := u.directive cs
        once budget rest u
    else once budget cs (u.write c.toString)

def all (format : String) : Nat → Use → Use
  | 0, u => u
  | budget + 1, u =>
    let u := once (format.length + 1) format.toList { u with asked := false }
    if u.ended || u.fault?.isSome || !u.asked || u.arguments.isEmpty then u else all format budget u

end Use

/-- **Writes arguments by a format.** -/
def use (strict : Bool) (format : String) (arguments : List String) : Use :=
  .all format (arguments.length + 1) ⟨strict, arguments, false, "", [], none, false⟩

end MapleCompiler.Script.Format
