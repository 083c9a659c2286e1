import MapleCompiler.Fault
import MapleCompiler.Program.Basic
import MapleCompiler.Scope.Basic

/-!
# The rules for names and types

Each definition here is one rule that a statement has to keep where it stands:
which names it may mention, what may be stored where, which element an index
may select. A rule that holds gives back what the program needs to know; one
that is broken gives the fault, at the token to blame. The rules look at the
scope and never change it.
-/

namespace MapleCompiler.Scope

/-- A type in a message. -/
def quoted (type : ValueType) : String := "'" ++ type.keyword ++ "'"

/-- The name `t` is used where its type does not fit. -/
def mismatch {α : Type} (t : Token) (target expected found : String) : Except CompileError α :=
  .error (.atToken (.typeMismatch target expected found) t)

/-- A name that is used has a meaning. -/
def requireMeaning (s : Scope) (t : Token) : Except CompileError Meaning :=
  match s.resolve? t.lexeme with
  | some meaning => .ok meaning
  | none => .error (.atToken (.undeclared t.lexeme) t)

/-- An operand that is an identifier has a meaning. -/
def requireDeclared (s : Scope) (t : Token) : Except CompileError Unit :=
  if t.kind = .identifier ∧ (s.resolve? t.lexeme).isNone then
    .error (.atToken (.undeclared t.lexeme) t)
  else .ok ()

/-- **What may be stored in a scalar of a type**: a literal that the type
accepts, or a scalar variable or binding of exactly that type. -/
def checkValue (s : Scope) (target : String) (type : ValueType) (t : Token) :
    Except CompileError Unit :=
  let refuse := mismatch t target (quoted type)
  match Literal.classify t.lexeme with
  | some literal =>
    if type.accepts literal then .ok ()
    else refuse (literal.describe ++ " '" ++ t.lexeme ++ "'")
  | none => do
    let meaning ← s.requireMeaning t
    match meaning with
    | .declared ⟨name, _, .function _⟩ => refuse ("function '" ++ name ++ "'")
    | .declared ⟨name, _, .array _ shape⟩ =>
      refuse ("array '" ++ name ++ "' of size " ++ toString shape.size)
    | _ =>
      if meaning.type = type then .ok ()
      else refuse ("'" ++ t.lexeme ++ "' of type " ++ quoted meaning.type)

/-- An element index: a name with a meaning, or a whole number below the size
of the array `name`. -/
def checkIndex (s : Scope) (name : String) (shape : ArrayShape) (index : Token) :
    Except CompileError Unit :=
  if index.kind = .identifier then s.requireDeclared index
  else
    match Literal.index? index.lexeme with
    | some i =>
      if i < shape.size then .ok ()
      else .error (.atToken (.indexOutOfRange name index.lexeme shape.size) index)
    | none => .error (.atToken (.unexpectedToken "an integer index" index.lexeme) index)

/-- What may be printed: an operand, and an element only of an array. -/
def checkOutput (s : Scope) (name : Token) (index? : Option Token) :
    Except CompileError Unit :=
  match index? with
  | none => .ok ()
  | some index =>
    match s.resolve? name.lexeme with
    | some (.declared ⟨_, _, .array _ shape⟩) => s.checkIndex name.lexeme shape index
    | _ => .error (.atToken (.notAnArray name.lexeme) name)

/-- **What may be assigned to**: a binding, a changeable scalar, or an element
of a changeable array. Gives the type of the place. -/
def checkTarget (s : Scope) (target : Token) (index? : Option Token) :
    Except CompileError ValueType := do
  match ← s.requireMeaning target with
  | .bound type =>
    match index? with
    | none => .ok type
    | some _ => .error (.atToken (.notAnArray target.lexeme) target)
  | .declared symbol =>
    if symbol.isConstant then .error (.atToken (.assignToConstant symbol.name) target)
    else
      match symbol.shape?, index? with
      | none, none => .ok symbol.type
      | none, some _ => .error (.atToken (.notAnArray target.lexeme) target)
      | some shape, none =>
        mismatch target target.lexeme "an element index"
          ("array of size " ++ toString shape.size)
      | some shape, some index => do
        s.checkIndex target.lexeme shape index
        .ok symbol.type

/-- The array that an element is read from, with its declared type. -/
def requireArray (s : Scope) (source : Token) : Except CompileError (Symbol × ArrayShape) :=
  match s.resolve? source.lexeme with
  | some (.declared symbol) =>
    match symbol.shape? with
    | some shape => .ok (symbol, shape)
    | none => .error (.atToken (.notAnArray symbol.name) source)
  | some (.bound _) => .error (.atToken (.notAnArray source.lexeme) source)
  | none =>
    if source.kind = .identifier then .error (.atToken (.undeclared source.lexeme) source)
    else .error (.atToken (.notAnArray source.lexeme) source)

/-- **The value of an element on the right of an assignment.** A named index is
read when the program runs. A literal index selects one of the literals that
the array started with, which is copied. -/
def elementValue (s : Scope) (target : String) (type : ValueType) (source index : Token) :
    Except CompileError AssignedValue := do
  let (symbol, shape) ← s.requireArray source
  if symbol.type ≠ type then
    mismatch source target (quoted type)
      ("element of '" ++ symbol.name ++ "' of type " ++ quoted symbol.type)
  else do
    s.checkIndex symbol.name shape index
    if index.kind = .identifier then .ok (.element symbol.name index.lexeme)
    else
      let position := (Literal.index? index.lexeme).getD shape.size
      match shape.values[position]? with
      | some literal => .ok (.copied symbol.name position literal)
      | none =>
        .error (.atToken (.indexOutOfRange symbol.name index.lexeme shape.values.length) index)

/-- A scalar that can be saved as a number. Tells whether it is constant. -/
def checkBackup (s : Scope) (name : Token) : Except CompileError Bool := do
  let meaning ← s.requireMeaning name
  let constant ← match meaning with
    | .declared ⟨_, _, .function _⟩ => mismatch name name.lexeme "a scalar variable" "a function"
    | .declared ⟨_, _, .array _ _⟩ => mismatch name name.lexeme "a scalar variable" "an array"
    | .declared ⟨_, _, .scalar constant⟩ => .ok constant
    | .bound _ => .ok false
  if meaning.type.hasBackup then .ok constant
  else mismatch name name.lexeme "a numeric or bool variable" ("type " ++ quoted meaning.type)

/-- The scalar whose saved value may be brought back: one that is not
constant. -/
def checkRestore (s : Scope) (name : Token) : Except CompileError Unit := do
  if ← s.checkBackup name then .error (.atToken (.assignToConstant name.lexeme) name)
  else .ok ()

/-- Whether the result of an operation can be stored in a type: remainders are
whole numbers. -/
def holdsResult (op : Arithmetic) (type : ValueType) : Bool :=
  match op with
  | .mod => type.isInteger
  | _ => type.isNumeric

/-- **Where the result of an operation may go**: a binding or a changeable
scalar of a type that holds it. -/
def checkResult (s : Scope) (op : Arithmetic) (target : Token) : Except CompileError Unit := do
  let meaning ← s.requireMeaning target
  match meaning with
  | .declared symbol =>
    if symbol.isConstant then .error (.atToken (.assignToConstant symbol.name) target)
    else if symbol.shape?.isSome then
      mismatch target symbol.name "a numeric variable" "an array"
    else .ok ()
  | .bound _ => .ok ()
  if holdsResult op meaning.type then .ok ()
  else
    mismatch target target.lexeme ("a numeric variable for '" ++ op.mark ++ "'")
      ("type " ++ quoted meaning.type)

/-- A function of the unit that initializes a variable returns its type, and a
variable of the unit is not called. Other functions are not known here. -/
def checkCallResult (s : Scope) (target : String) (type : ValueType) (callee : Token) :
    Except CompileError Unit :=
  match s.lookup? callee.lexeme with
  | none => .ok ()
  | some symbol =>
    if symbol.isFunction then
      if symbol.type = type then .ok ()
      else
        mismatch callee target (quoted type)
          ("result of '" ++ symbol.name ++ "' of type " ++ quoted symbol.type)
    else .error (.atToken (.unexpectedToken "a function name" symbol.name) callee)

/-- A call of a function of the unit passes as many arguments as it has
parameters. -/
def checkArity (s : Scope) (callee : Token) (call : Call) : Except CompileError Unit :=
  match (s.lookup? callee.lexeme).bind Symbol.arity? with
  | none => .ok ()
  | some arity =>
    if call.arguments.length = arity then .ok ()
    else .error (.atToken (.argumentCount call.function arity call.arguments.length) callee)

/-- The value a function returns: one of its type, and none if it returns
nothing. The keyword is to blame for a missing value. -/
def checkReturn (s : Scope) (signature : Signature) (keyword : Token) (value? : Option Token) :
    Except CompileError Unit :=
  match value?, signature.returnType with
  | none, .empty => .ok ()
  | none, type =>
    mismatch keyword signature.name ("a " ++ quoted type ++ " return value") "nothing"
  | some value, .empty =>
    mismatch value signature.name "no return value" ("'" ++ value.lexeme ++ "'")
  | some value, type => s.checkValue signature.name type value

end MapleCompiler.Scope
