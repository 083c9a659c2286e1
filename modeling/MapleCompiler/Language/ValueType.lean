/-!
# Value types and literals

`ValueType` is the closed set of types of the language, with the word that
names each in a script and the type it becomes in C++. `Literal` is the class
of an operand that is not a name; `Literal.classify` reads the class off the
text, and `Literal.index?` reads an element index.

Main rule: `ValueType.accepts` says which literals may be stored in a variable
of a type. The texts `0` and `1` form a class of their own because they are
both numbers and truth values.
-/

namespace MapleCompiler

/-- **The types of the language.** -/
inductive ValueType
  | i8
  | i16
  | i32
  | i64
  | bool
  | f32
  | f64
  | char
  | str
  /-- The type of functions that return nothing; no variable has it. -/
  | empty
deriving DecidableEq

/-- The classes of literals. -/
inductive Literal
  /-- `0` or `1`: a number and a truth value. -/
  | bit
  /-- Any other run of digits. -/
  | integer
  /-- Digits, a point and digits. -/
  | decimal
  /-- `true` or `false`. -/
  | boolean
deriving DecidableEq

namespace ValueType

/-- All types. -/
def all : List ValueType := [i8, i16, i32, i64, bool, f32, f64, char, str, empty]

/-- The word for a type in a script. -/
def keyword : ValueType → String
  | i8 => "i8"
  | i16 => "i16"
  | i32 => "i32"
  | i64 => "i64"
  | bool => "bool"
  | f32 => "f32"
  | f64 => "f64"
  | char => "char"
  | str => "str"
  | empty => "empty"

/-- The type a word names. -/
def ofKeyword? (word : String) : Option ValueType :=
  all.find? (·.keyword == word)

/-- The type in C++. -/
def cpp : ValueType → String
  | i8 => "int8_t"
  | i16 => "int16_t"
  | i32 => "int32_t"
  | i64 => "int64_t"
  | bool => "bool"
  | f32 => "float"
  | f64 => "double"
  | char => "char"
  | str => "std::string"
  | empty => "void"

/-- Whether values of the type are whole numbers. -/
def isInteger : ValueType → Bool
  | i8 | i16 | i32 | i64 => true
  | _ => false

/-- Whether values of the type are floating-point numbers. -/
def isFloat : ValueType → Bool
  | f32 | f64 => true
  | _ => false

/-- Whether values of the type are numbers. -/
def isNumeric (t : ValueType) : Bool := t.isInteger || t.isFloat

/-- Whether a variable or parameter may have the type. -/
def isStorable (t : ValueType) : Bool := t != empty

/-- Whether a value of the type survives being saved as a number. -/
def hasBackup (t : ValueType) : Bool := t.isNumeric || t == bool

/-- **Which literals a variable of the type may hold.** -/
def accepts (t : ValueType) : Literal → Bool
  | .integer => t.isNumeric
  | .decimal => t.isFloat
  | .boolean => t == bool
  | .bit => t.isNumeric || t == bool

end ValueType

namespace Literal

/-- The class of a run of digits, perhaps with a fraction. `whole` is what
stands before the first point, and `fraction?` what stands after it. -/
def ofDigits? (whole : List Char) (fraction? : Option (List Char)) : Option Literal :=
  if whole = [] ∨ whole.any (!·.isDigit) then none
  else
    match fraction? with
    | none => some integer
    | some fraction => if fraction = [] ∨ fraction.any (!·.isDigit) then none else some decimal

/-- The text after the first point, if there is one. -/
def fraction? (text : List Char) : Option (List Char) :=
  match text.dropWhile (· != '.') with
  | [] => none
  | _ :: rest => some rest

/-- **The class of an operand's text**; a text of no class is a name. -/
def classify (text : String) : Option Literal :=
  if text = "true" ∨ text = "false" then some boolean
  else if text = "0" ∨ text = "1" then some bit
  else
    let chars := text.toList
    ofDigits? (chars.takeWhile (· != '.')) (fraction? chars)

/-- The number that a run of digits denotes, read on from `n`. -/
def valueFrom (n : Nat) (digits : List Char) : Nat :=
  digits.foldl (fun n c => 10 * n + (c.toNat - '0'.toNat)) n

/-- Sizes and indices are words of 64 bits. -/
def indexBound : Nat := 18446744073709551616

/-- **The literal as an element index**: a run of digits whose value fits in
a word. -/
def index? (text : String) : Option Nat :=
  match classify text with
  | some integer | some bit =>
    let n := valueFrom 0 text.toList
    if n < indexBound then some n else none
  | _ => none

/-- The class in words. -/
def describe : Literal → String
  | bit | integer => "integer literal"
  | decimal => "decimal literal"
  | boolean => "boolean literal"

end Literal

end MapleCompiler
