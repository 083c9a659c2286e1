import MapleCompiler.Host.Script.Arithmetic

/-!
# Conditions

The words of a condition are operators and operands. An operator that asks
about one operand counts as an operand itself if it stands alone or before an
operator between two. Conditions are joined with `-a`, `-o` and `!`, and may
stand in parentheses.
-/

namespace MapleCompiler.Script.Builtin

/-- What an operator of a condition is. -/
inductive Operator
  | unary
  | binary
  | not
  | and
  | or
  | opening
  | closing
deriving DecidableEq

def unaryOperators : List String :=
  ["-r", "-w", "-x", "-e", "-f", "-d", "-c", "-b", "-p", "-u", "-g", "-k", "-s", "-t", "-z", "-n",
    "-h", "-O", "-G", "-L", "-S"]

def binaryOperators : List String :=
  ["=", "!=", "<", ">", "-eq", "-ne", "-ge", "-gt", "-le", "-lt", "-nt", "-ot", "-ef"]

def operator? (word : String) : Option Operator :=
  if unaryOperators.contains word then some .unary
  else if binaryOperators.contains word then some .binary
  else match word with
    | "!" => some .not
    | "-a" => some .and
    | "-o" => some .or
    | "(" => some .opening
    | ")" => some .closing
    | _ => none

def leading? (words : List String) : Option Operator :=
  match words with
  | [] => none
  | word :: rest =>
    match operator? word, rest with
    | some .unary, [] => none
    | some .unary, [_] => some .unary
    | some .unary, next :: _ => if operator? next = some .binary then none else some .unary
    | some .opening, [] => none
    | op, _ => op

/-- What the owner of a file may do with it. -/
def allows (path : String) (right : Right) : Sh Bool := do
  match ← Sh.find path with
  | .ok (_, entry) => return entry.mode.gives right
  | .error _ => return false

def holds (op operand : String) : Sh Bool := do
  match op with
  | "-z" => return operand.isEmpty
  | "-n" => return !operand.isEmpty
  | "-t" =>
    match decimal? operand with
    | some _ => return false
    | none => Sh.fail ("Illegal number: " ++ operand) 2
  | "-r" => allows operand .read
  | "-w" => allows operand .write
  | "-x" => allows operand .pass
  | "-h" | "-L" =>
    match ← Sh.look operand with
    | .ok (_, .link _) => return true
    | _ => return false
  | _ =>
    match ← Sh.find operand with
    | .error _ => return false
    | .ok (_, entry) =>
      match op with
      | "-e" | "-O" | "-G" => return true
      | "-f" => return !entry.isDirectory && !operand.startsWith "/dev/"
      | "-d" => return entry.isDirectory
      | "-c" => return !entry.isDirectory && operand.startsWith "/dev/"
      | "-s" =>
        match entry with
        | .file content _ => return content.octets ≠ ""
        | .directory _ | .link _ => return true
      | "-u" => return entry.mode.testBit 11
      | "-g" => return entry.mode.testBit 10
      | "-k" => return entry.mode.testBit 9
      | _ => return false

def operandNumber (operand : String) : Sh Int := do
  match decimal? operand with
  | some n => return n
  | none => Sh.fail ("Illegal number: " ++ operand) 2

def compares (op a b : String) : Sh Bool := do
  match op with
  | "=" => return a == b
  | "!=" => return a != b
  | "<" => return a < b
  | ">" => return b < a
  | "-nt" | "-ot" | "-ef" =>
    match ← Sh.find a, ← Sh.find b with
    | .ok _, .error _ => return op == "-nt"
    | .error _, .ok _ => return op == "-ot"
    | .ok (p, _), .ok (q, _) => return op == "-ef" && p == q
    | .error _, .error _ => return false
  | _ =>
    let m ← operandNumber a
    let n ← operandNumber b
    match op with
    | "-eq" => return m == n
    | "-ne" => return m != n
    | "-ge" => return n ≤ m
    | "-gt" => return n < m
    | "-le" => return m ≤ n
    | _ => return m < n

mutual

/-- Conditions joined by `-o`. Gives the words after the first of those that
were not used up, which is the last word that was. -/
def anyOf : Nat → Bool → List String → Sh (Bool × List String)
  | 0, _, words => return (false, words)
  | budget + 1, before, words => do
    let (holds, words) ← allOf budget true words
    match leading? words.tail with
    | some .or => anyOf budget (before || holds) (words.drop 2)
    | _ => return (before || holds, words)

/-- Conditions joined by `-a`. -/
def allOf : Nat → Bool → List String → Sh (Bool × List String)
  | 0, _, words => return (false, words)
  | budget + 1, before, words => do
    let (holds, words) ← negation budget words
    match leading? words.tail with
    | some .and => allOf budget (before && holds) (words.drop 2)
    | _ => return (before && holds, words)

/-- A condition after any number of `!`. -/
def negation : Nat → List String → Sh (Bool × List String)
  | 0, words => return (false, words)
  | budget + 1, words => do
    if leading? words = some .not then
      let (holds, words) ← negation budget (if words.tail.isEmpty then [] else words.tail)
      return (!holds, words)
    else primary budget words

def primary : Nat → List String → Sh (Bool × List String)
  | 0, words => return (false, words)
  | budget + 1, words => do
    match words with
    | [] => return (false, [])
    | word :: rest =>
      match leading? words with
      | some .opening =>
        if leading? rest = some .closing then return (false, rest)
        else
          let (holds, words) ← anyOf budget false rest
          if leading? words.tail = some .closing then return (holds, words.tail)
          else Sh.fail "closing paren expected" 2
      | some .unary =>
        match rest with
        | [] => Sh.fail (word ++ ": argument expected") 2
        | operand :: _ => return (← holds word operand, rest)
      | _ =>
        match leading? rest, rest with
        | some .binary, op :: behind =>
          match behind with
          | [] => Sh.fail (op ++ ": argument expected") 2
          | operand :: _ => return (← compares op word operand, behind)
        | _, _ => return (word ≠ "", words)

end

/-- The condition of some words; what is left over of them is a fault. -/
def wholeCondition (words : List String) (ends : Bool) : Sh Nat := do
  let budget := 8 * words.length + 8
  let (holds, rest) ← match words, ends with
    | [a, op, b], true => pure (← compares op a b, [b])
    | _, _ => anyOf budget false words
  match rest with
  | first :: _ :: _ =>
    Sh.fail ((if first = "" then "" else first ++ ": ") ++ "unexpected operator") 2
  | _ => return if holds then 0 else 1

def opposite (status : Nat) : Nat := if status = 0 then 1 else 0

/-- The condition of three words. An operator between two operands comes first. -/
def conditionOfThree (a op b : String) : Sh Nat := do
  if operator? op = some .binary then wholeCondition [a, op, b] true
  else if a = "(" ∧ b = ")" then wholeCondition [op] false
  else if a = "!" then return opposite (← wholeCondition [op, b] false)
  else wholeCondition [a, op, b] false

/-- **Whether the condition of some words holds**: zero if it does. -/
def condition : List String → Sh Nat
  | [] => return 1
  | [a, op, b] => conditionOfThree a op b
  | ["!", a, op, b] => return opposite (← conditionOfThree a op b)
  | ["(", a, b, ")"] => wholeCondition [a, b] false
  | words => wholeCondition words false

def testCommand (name : String) (arguments : List String) : Sh Nat := do
  if name = "[" then
    if arguments.getLast? = some "]" then condition arguments.dropLast
    else Sh.fail "missing ]" 2
  else condition arguments

end MapleCompiler.Script.Builtin
