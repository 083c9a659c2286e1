import MapleCompiler.Language.Dialect
import MapleCompiler.Program.Operand

/-!
# Statements without a body

One reader for each kind of statement that holds no other statements. Each is
called when its first token is looked at, and takes it.

The order in which a reader takes tokens and asks for rules decides which of
several faults is found: the target and the value of an assignment are taken
before any rule is asked for, while the operands of an arithmetic statement are
checked one by one.
-/

namespace MapleCompiler

/-- Where a statement stands. -/
structure Context where
  /-- The dialect of the text. -/
  dialect : Dialect
  /-- How many blocks are around the statement. -/
  depth : Nat
  /-- The function whose body holds the statement. -/
  function? : Option Signature

/-- Whether a statement stands outside of all blocks and functions. -/
def Context.isTopLevel (ctx : Context) : Bool := ctx.depth == 0 && ctx.function?.isNone

/-- Text without the `@` signs at its front. -/
def dropAtSigns (text : String) : String :=
  String.ofList (text.toList.dropWhile (· == '@'))

/-- Text, given in reverse, without the pairs of colons at its end. -/
def dropColonPairs : List Char → List Char
  | ':' :: ':' :: rest => dropColonPairs rest
  | rest => rest

/-- The library that a qualifier names: no `@` signs before it and no pairs of
colons behind it. -/
def qualifiedLibrary (lexeme : String) : String :=
  String.ofList (dropColonPairs (dropAtSigns lexeme).toList.reverse).reverse

namespace Read

/-- A type that a variable can have. -/
def storableType : Read ValueType := do
  if ← sees .eof then unexpected "a type"
  else
    let t ← advance
    match t.kind.valueType? with
    | some type => if type.isStorable then return type else failAt t (.invalidType t.lexeme)
    | none => failAt t (.invalidType t.lexeme)

/-- The size of an array: a whole number above zero. -/
def arraySize : Read Nat := do
  let t ← expect .number "an array size"
  match Literal.index? t.lexeme with
  | some (n + 1) => return n + 1
  | _ => failAt t (.unexpectedToken "a positive integer array size" t.lexeme)

/-- The next literal for an array `name` that has `values` before it: one that
the type accepts and that still has an element. -/
def arrayValue (name : String) (type : ValueType) (size : Nat) (values : List String) :
    Read String := do
  if (← peek).kind.isLiteral then
    let t ← advance
    rule (·.checkValue name type t)
    if values.length = size then
      failAt t (.indexOutOfRange name (toString values.length) size)
    else return t.lexeme
  else unexpected "a literal array value or '\x7d'"

/-- The shape of an array after its opening bracket. -/
def arrayShape (name : String) (type : ValueType) : Read ArrayShape := do
  let _ ← expect .rightBracket "']'"
  let size ← arraySize
  if ← accept .arrow then
    let _ ← expect .leftBrace "'\x7b'"
    let values ← listUntil .rightBrace "',' or '\x7d'" (arrayValue name type size)
    return ⟨size, values⟩
  else return ⟨size, []⟩

/-- What a declared variable starts with, and what it then is. -/
def initializer (name : String) (type : ValueType) (constant : Bool) :
    Read (Initializer × Role) := do
  if ← seesCall then
    let callee ← peek
    let call ← call
    rule (·.checkCallResult name type callee)
    rule (·.checkArity callee call)
    return (.call call, .scalar constant)
  else if ← accept .leftBracket then
    let shape ← arrayShape name type
    return (.array shape.size shape.values, .array constant shape)
  else
    let value ← operand "an initial value"
    rule (·.checkValue name type value)
    return (.value value.lexeme, .scalar constant)

/-- `dec [ch] TYPE NAME INITIALIZER`: a variable, constant unless marked. -/
def declaration : Read Node := do
  let _ ← advance
  let changeable ← accept .ch
  let type ← storableType
  let name ← identifier "a variable name"
  if (← get).scope.isDefined name.lexeme then failAt name (.redeclared name.lexeme)
  else
    let (init, role) ← initializer name.lexeme type !changeable
    introduce name (Scope.declare ⟨name.lexeme, type, role⟩)
    return .declare ⟨type, name.lexeme, init, !changeable⟩

/-- `set NAME[INDEX] VALUE[INDEX]`: an assignment. -/
def assignment : Read Node := do
  let _ ← advance
  let target ← identifier "a variable name"
  let targetIndex ← index?
  let value ← operand "a value"
  let valueIndex ← index?
  let type ← rule (·.checkTarget target targetIndex)
  let assigned ← match valueIndex with
    | some index => rule (·.elementValue target.lexeme type value index)
    | none => do
      rule (·.checkValue target.lexeme type value)
      pure (.plain value.lexeme)
  return .assign ⟨target.lexeme, targetIndex.map Token.lexeme, assigned⟩

/-- `out VALUE[INDEX]`: prints a value. -/
def output : Read Node := do
  let _ ← advance
  let name ← knownOperand "a value to print"
  let index ← index?
  rule (·.checkOutput name index)
  return .output name.lexeme (index.map Token.lexeme)

/-- `back NAME`: saves a variable. -/
def save : Read Node := do
  let _ ← advance
  let name ← identifier "a variable name"
  let _ ← rule (·.checkBackup name)
  modifyScope (·.recordBackup name.lexeme)
  return .save name.lexeme

/-- `load NAME`: brings a variable back, with a warning if it was not saved
before. -/
def restore : Read Node := do
  let _ ← advance
  let name ← identifier "a variable name"
  rule (·.checkRestore name)
  modify fun s =>
    if s.scope.hasBackup name.lexeme then s
    else { s with warnings := s.warnings ++ [.restoreWithoutBackup name.lexeme name.span] }
  return .restore name.lexeme

/-- `rtn [VALUE]`: leaves the function. -/
def giveBack (ctx : Context) : Read Node := do
  let keyword ← advance
  match ctx.function? with
  | none => failAt keyword .returnOutsideFunction
  | some signature =>
    let hasValue := (← peek).kind.isOperand && !(← seesCall)
    let value ← if hasValue then some <$> operand "a return value" else pure none
    rule (·.checkReturn signature keyword value)
    return .giveBack (value.map Token.lexeme)

/-- `OP LEFT RIGHT [=> DESTINATION]`: arithmetic. Without a destination the
left operand is updated, so it has to be a variable. -/
def calculation (op : Arithmetic) : Read Node := do
  let _ ← advance
  let left ← knownOperand "an arithmetic operand"
  let right ← knownOperand "an arithmetic operand"
  let destination ←
    if ← accept .into then some <$> identifier "a destination variable after '=>'"
    else pure none
  match destination with
  | some target => rule (·.checkResult op target)
  | none =>
    if left.kind = .identifier then rule (·.checkResult op left)
    else failAt left (.unexpectedToken "a variable to update" left.lexeme)
  return .calculate ⟨op, left.lexeme, right.lexeme, destination.map Token.lexeme⟩

/-- `NAME : ARGUMENTS :`: a call. -/
def callStatement : Read Node := do
  let callee ← peek
  let call ← call
  rule (·.checkArity callee call)
  return .call call

/-- `lib @NAME`: imports a library, once, at the top level. -/
def libraryImport (ctx : Context) : Read Node := do
  let keyword ← advance
  if ctx.isTopLevel then
    let name ← expect .libraryName "a library name ('@name')"
    let library := dropAtSigns name.lexeme
    if (← get).imports.contains library then failAt name (.duplicateLibrary library)
    else
      modify fun s => { s with imports := library :: s.imports }
      return .useLibrary library name.span
  else
    failAt keyword
      (.unexpectedToken "a statement (libraries are imported at the top level)" keyword.lexeme)

/-- `init @NAME`: opens the namespace of the unit, as its first statement. -/
def namespaceInit : Read Node := do
  if (← get).taken = 0 then
    let _ ← advance
    if ← sees .libraryName then
      let name ← advance
      return .openNamespace (dropAtSigns name.lexeme)
    else failAt (← peek) .missingNamespaceName
  else failAt (← peek) .misplacedInit

/-- `@LIBRARY::NAME : ARGUMENTS :`: a call of a function of an imported
library. -/
def qualifiedCall : Read Node := do
  let qualifier ← advance
  let library := qualifiedLibrary qualifier.lexeme
  if (← get).imports.contains library then
    if ← seesCall then return .qualifiedCall library (← call)
    else unexpected "a function call after the library qualifier"
  else failAt qualifier (.unknownLibrary library)

end Read

end MapleCompiler
