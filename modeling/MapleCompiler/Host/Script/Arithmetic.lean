import MapleCompiler.Host.Script.Session

/-!
# Arithmetic of scripts

An expression is a text of numbers, variables and operators on whole numbers of
64 bits. `Expression.ofText` reads one and `Expression.value` computes it,
which may give variables new values. A variable counts as the number that its
value denotes, and as zero if it has none.
-/

namespace MapleCompiler.Script

/-- An expression on whole numbers. -/
inductive Expression
  | number (n : Int)
  | valueOf (name : String)
  | unary (op : Char) (e : Expression)
  | binary (op : String) (a b : Expression)
  | choice (test yes no : Expression)
  /-- An assignment, perhaps after an operation on the old value. -/
  | assign (name op : String) (e : Expression)
  /-- Nothing could be read here. -/
  | flaw (message : String)
  /-- Nothing could be read after an expression. -/
  | flawed (e : Expression) (message : String)

/-- A number of 64 bits. -/
def wrap (n : Int) : Int := n.bmod 18446744073709551616

def digitValue (c : Char) : Nat :=
  if c.isDigit then c.toNat - '0'.toNat
  else if 'a' ≤ c ∧ c ≤ 'z' then c.toNat - 'a'.toNat + 10
  else if 'A' ≤ c ∧ c ≤ 'Z' then c.toNat - 'A'.toNat + 10
  else 99

def digitsValue (base : Nat) (digits : List Char) : Nat :=
  digits.foldl (fun n c => base * n + digitValue c) 0

/-- The number at the front of a text, in a base that its first digits tell, and
the text behind it. -/
def numberAt? (cs : List Char) : Option (Nat × List Char) :=
  let among (base : Nat) (c : Char) : Bool := digitValue c < base
  match cs with
  | '0' :: x :: rest =>
    let hex := rest.takeWhile (among 16)
    if (x = 'x' ∨ x = 'X') ∧ hex ≠ [] then some (digitsValue 16 hex, rest.drop hex.length)
    else
      let octal := cs.takeWhile (among 8)
      some (digitsValue 8 octal, cs.drop octal.length)
  | c :: _ =>
    if c.isDigit then
      let digits := cs.takeWhile Char.isDigit
      some (digitsValue 10 digits, cs.drop digits.length)
    else none
  | [] => none

/-- The greatest number of 64 bits. -/
def greatest : Int := 9223372036854775807

/-- A number held within 64 bits. -/
def clamp (n : Int) : Int := max (-greatest - 1) (min greatest n)

def isBlank (c : Char) : Bool := " \t\n\r\x0b\x0c".toList.contains c

/-- The number at the front of a text after blanks and a sign, and the text
behind it. -/
def signedAt? (cs : List Char) : Option (Int × List Char) :=
  match cs.dropWhile isBlank with
  | '-' :: rest => (numberAt? rest).map fun (n, behind) => (-(n : Int), behind)
  | '+' :: rest => (numberAt? rest).map fun (n, behind) => ((n : Int), behind)
  | rest => (numberAt? rest).map fun (n, behind) => ((n : Int), behind)

def wholeNumber? (text : String) : Option Int :=
  match signedAt? text.toList with
  | some (n, behind) => if behind.all isBlank then some (clamp n) else none
  | none => none

/-- The number of 64 bits that a text of decimal digits denotes, with blanks and
a sign. -/
def decimal? (text : String) : Option Int :=
  let read (cs : List Char) : Option Nat :=
    let digits := cs.takeWhile Char.isDigit
    if digits = [] ∨ (cs.drop digits.length).any (!isBlank ·) then none
    else some (digitsValue 10 digits)
  let value? : Option Int := match text.toList.dropWhile isBlank with
    | '-' :: rest => (read rest).map fun n => -(n : Int)
    | '+' :: rest => (read rest).map fun n => (n : Int)
    | rest => (read rest).map fun n => (n : Int)
  value?.filter fun n => -9223372036854775808 ≤ n && n ≤ 9223372036854775807

namespace Expression

/-- A piece of an expression. -/
inductive Piece
  | number (n : Int)
  | name (name : String)
  | operator (text : String)
deriving DecidableEq

/-- The operators, longer ones first. -/
def operators : List String :=
  ["<<=", ">>=", "&&", "||", "<<", ">>", "<=", ">=", "==", "!=", "+=", "-=", "*=", "/=", "%=",
    "&=", "|=", "^=", "+", "-", "*", "/", "%", "<", ">", "&", "|", "^", "!", "~", "?", ":", "=",
    "(", ")"]

/-- The pieces of an expression. A character that means nothing is an operator
of its own. -/
def piecesFrom : Nat → List Char → List Piece
  | 0, _ => []
  | _, [] => []
  | budget + 1, c :: cs =>
    if isBlank c then piecesFrom budget cs
    else if isNameStart c then
      let name := (c :: cs).takeWhile isNameChar
      .name (String.ofList name) :: piecesFrom budget ((c :: cs).drop name.length)
    else
      match numberAt? (c :: cs) with
      | some (n, behind) => .number (clamp n) :: piecesFrom budget behind
      | none =>
        match mark? operators (c :: cs) with
        | some (op, behind) => .operator op :: piecesFrom budget behind
        | none => .operator c.toString :: piecesFrom budget cs

/-- How tightly an operator binds: the loosest is one. -/
def strength? : Piece → Option (Nat × String)
  | .operator op =>
    match op with
    | "||" => some (1, op)
    | "&&" => some (2, op)
    | "|" => some (3, op)
    | "^" => some (4, op)
    | "&" => some (5, op)
    | "==" | "!=" => some (6, op)
    | "<" | ">" | "<=" | ">=" => some (7, op)
    | "<<" | ">>" => some (8, op)
    | "+" | "-" => some (9, op)
    | "*" | "/" | "%" => some (10, op)
    | _ => none
  | _ => none

def assignment? : Piece → Option String
  | .operator op =>
    if ["=", "+=", "-=", "*=", "/=", "%=", "&=", "|=", "^=", "<<=", ">>="].contains op then
      some (String.ofList op.toList.dropLast)
    else none
  | _ => none

/-- A step of reading an expression: what is left of it is the state. -/
abbrev Reading (α : Type) : Type := StateM (List Piece) α

def stopAt (e : Expression) : Reading Expression := do
  set ([] : List Piece)
  return e

mutual

def operand : Nat → Reading Expression
  | 0 => stopAt (.flaw "expecting primary")
  | budget + 1 => do
    match ← get with
    | .number n :: rest =>
      set rest
      return .number n
    | .name name :: rest =>
      set rest
      return .valueOf name
    | .operator op :: rest =>
      if op = "(" then
        set rest
        let e ← whole budget
        match ← get with
        | .operator ")" :: rest =>
          set rest
          return e
        | _ => stopAt (.flawed e "expecting ')'")
      else if op = "+" ∨ op = "-" ∨ op = "!" ∨ op = "~" then
        set rest
        return .unary (op.toList.headD '+') (← operand budget)
      else stopAt (.flaw "expecting primary")
    | [] => stopAt (.flaw "expecting primary")

/-- Operands with operators between them that bind at least as tightly as
`least`, of which the first was read. -/
def operations : Nat → Nat → Expression → Reading Expression
  | 0, _, e => return e
  | budget + 1, least, e => do
    match ← get with
    | piece :: rest =>
      match strength? piece with
      | some (strength, op) =>
        if strength < least then return e
        else
          set rest
          let right ← operand budget
          let right ← operations budget (strength + 1) right
          operations budget least (.binary op e right)
      | none => return e
    | [] => return e

def conditional : Nat → Reading Expression
  | 0 => stopAt (.flaw "expecting primary")
  | budget + 1 => do
    let test ← operations budget 1 (← operand budget)
    match ← get with
    | .operator "?" :: rest =>
      set rest
      let yes ← whole budget
      match ← get with
      | .operator ":" :: rest =>
        set rest
        return .choice test yes (← conditional budget)
      | _ => stopAt (.choice test yes (.flaw "expecting ':'"))
    | _ => return test

def whole : Nat → Reading Expression
  | 0 => stopAt (.flaw "expecting primary")
  | budget + 1 => do
    match ← get with
    | .name name :: piece :: rest =>
      match assignment? piece with
      | some op =>
        set rest
        return .assign name op (← whole budget)
      | none => conditional budget
    | _ => conditional budget

end

/-- **Reads an expression.** -/
def ofText (text : String) : Expression :=
  let pieces := piecesFrom (text.length + 1) text.toList
  match (whole (8 * pieces.length + 16)).run pieces with
  | (e, []) => e
  | (e, _) => .flawed e "expecting EOF"

def ofBool (b : Bool) : Int := if b then 1 else 0

def bits (n : Int) : Nat := (n % 18446744073709551616).toNat

/-- An operation on two numbers; none divides by zero. -/
def operate? (op : String) (a b : Int) : Option Int :=
  match op with
  | "+" => some (wrap (a + b))
  | "-" => some (wrap (a - b))
  | "*" => some (wrap (a * b))
  | "/" => if b = 0 then none else some (wrap (a.tdiv b))
  | "%" => if b = 0 then none else some (a.tmod b)
  | "<<" => some (wrap (bits a <<< (bits b % 64) : Nat))
  | ">>" => some (a >>> (bits b % 64))
  | "<" => some (ofBool (a < b))
  | ">" => some (ofBool (b < a))
  | "<=" => some (ofBool (a ≤ b))
  | ">=" => some (ofBool (b ≤ a))
  | "==" => some (ofBool (a == b))
  | "!=" => some (ofBool (a != b))
  | "&" => some (wrap (bits a &&& bits b : Nat))
  | "|" => some (wrap (bits a ||| bits b : Nat))
  | "^" => some (wrap (bits a ^^^ bits b : Nat))
  | _ => some b

def variableValue (name : String) : Sh Int := do
  match ← Sh.value? name with
  | none => return 0
  | some text =>
    if text.toList.all isBlank then return 0
    else
      match wholeNumber? text with
      | some n => return n
      | none => Sh.fail ("Illegal number: " ++ text) 2

/-- Says what is wrong with an expression, and stops. -/
def failAt {α : Type} (text message : String) : Sh α :=
  Sh.fail ("arithmetic expression: " ++ message ++ ": \"" ++ text ++ "\"") 2

/-- **The value of an expression**, which was read from `text`. What is passed
over is not `live`: only its flaws count. -/
def value (text : String) : Bool → Expression → Sh Int
  | _, number n => return n
  | live, valueOf name => if live then variableValue name else return 0
  | live, unary op e => do
    let n ← value text live e
    match op with
    | '-' => return wrap (-n)
    | '!' => return ofBool (n == 0)
    | '~' => return -n - 1
    | _ => return n
  | live, binary op a b => do
    let m ← value text live a
    match op with
    | "&&" =>
      let n ← value text (live && m != 0) b
      return ofBool (m != 0 && n != 0)
    | "||" =>
      let n ← value text (live && m == 0) b
      return ofBool (m != 0 || n != 0)
    | _ =>
      let n ← value text live b
      if !live then return n
      match operate? op m n with
      | some result => return result
      | none => failAt text "division by zero"
  | live, choice test yes no => do
    let t ← value text live test
    let m ← value text (live && t != 0) yes
    let n ← value text (live && t == 0) no
    return if t ≠ 0 then m else n
  | live, assign name op e => do
    let n ← value text live e
    if !live then return n
    let old ← if op = "" then pure 0 else variableValue name
    match operate? op old n with
    | some result =>
      Sh.assign name (toString result)
      return result
    | none => failAt text "division by zero"
  | _, flaw message => failAt text message
  | live, flawed e message => do
    let _ ← value text live e
    failAt text message

def evaluate (text : String) : Sh Int := (ofText text).value text true

end Expression

end MapleCompiler.Script
