import MapleCompiler.Program.Read

/-!
# Operands, conditions and calls

The parts that statements are made of: operands, element indices, conditions
and calls.
-/

namespace MapleCompiler.Read

/-- Takes a name or a literal. -/
def operand (expected : String) : Read Token := do
  if (← peek).kind.isOperand then advance else unexpected expected

/-- Takes a literal, or a name that has a meaning. -/
def knownOperand (expected : String) : Read Token := do
  let t ← operand expected
  rule (·.requireDeclared t)
  return t

/-- An index in brackets, if one stands here. -/
def index? : Read (Option Token) := do
  if ← accept .leftBracket then
    let index ← operand "an array index"
    let _ ← expect .rightBracket "']'"
    return some index
  else return none

/-- The comparison that stands here. -/
def comparison : Read Comparison := do
  match (← peek).kind with
  | .comparison op =>
    let _ ← advance
    return op
  | _ => unexpected "a comparison operator"

/-- Two operands with a comparison between them. -/
def condition : Read Condition := do
  let left ← knownOperand "a condition operand"
  let op ← comparison
  let right ← knownOperand "a condition operand"
  return ⟨left.lexeme, op, right.lexeme⟩

/-- An argument of a call. -/
def argument : Read String := do
  return (← knownOperand "a call argument or ':'").lexeme

/-- A function name and its arguments between colons. -/
def call : Read Call := do
  let name ← identifier "a function name"
  let _ ← expect .colon "':' after the function name"
  let arguments ← listUntil .colon "',' or ':'" fun _ => argument
  return ⟨name.lexeme, arguments⟩

end MapleCompiler.Read
