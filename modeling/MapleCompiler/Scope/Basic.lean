import MapleCompiler.Language.ValueType

/-!
# Names in scope

A `Scope` holds what is known about names while a program is read.
Declarations stand in **one flat table for the whole unit**: blocks and
function bodies share it, and a declaration stays to the end of the unit. Loop
variables and parameters are *bindings*, kept on a stack of blocks and gone
when their block ends. The scope also remembers which variables were saved.

A name that has a meaning, declared or bound, can be given no second one:
`Scope.declare` and `Scope.bindName` refuse it. So a name never has two meanings
at once, and `Scope.resolve?` finds the one it has. The two work on a scope in
place and leave one whether they succeed or not.
-/

namespace MapleCompiler

/-- What is known about an array: its size and the literal values that its
first elements start with. -/
structure ArrayShape where
  size : Nat
  values : List String
deriving DecidableEq

/-- What a declared name stands for. -/
inductive Role
  /-- A variable with one value. -/
  | scalar (constant : Bool)
  /-- A variable with several elements. -/
  | array (constant : Bool) (shape : ArrayShape)
  /-- A function of so many parameters. -/
  | function (arity : Nat)
deriving DecidableEq

/-- **A declared name.** The type is that of the variable, of its elements or
of the function's result. -/
structure Symbol where
  name : String
  type : ValueType
  role : Role
deriving DecidableEq

namespace Symbol

/-- Whether the name may not be assigned to. -/
def isConstant (s : Symbol) : Bool :=
  match s.role with
  | .scalar constant => constant
  | .array constant _ => constant
  | .function _ => true

/-- Whether the name is a function. -/
def isFunction (s : Symbol) : Bool :=
  match s.role with
  | .function _ => true
  | _ => false

/-- The shape of an array. -/
def shape? (s : Symbol) : Option ArrayShape :=
  match s.role with
  | .array _ shape => some shape
  | _ => none

/-- The number of parameters of a function. -/
def arity? (s : Symbol) : Option Nat :=
  match s.role with
  | .function arity => some arity
  | _ => none

end Symbol

/-- **What a name means at a place of a program.** -/
inductive Meaning
  /-- It was declared. -/
  | declared (symbol : Symbol)
  /-- It is a loop variable or parameter of a block around the place. -/
  | bound (type : ValueType)
deriving DecidableEq

/-- The type of the value a name stands for. -/
def Meaning.type : Meaning → ValueType
  | declared s => s.type
  | bound t => t

/-- **The names known at a place of a program.** -/
structure Scope where
  /-- The declarations so far. -/
  symbols : List Symbol
  /-- The bindings of the blocks around the place, innermost block first. -/
  blocks : List (List (String × ValueType))
  /-- The variables saved so far. -/
  backups : List String
deriving DecidableEq

namespace Scope

/-- No names at all. -/
def empty : Scope := ⟨[], [], []⟩

/-- The declaration of a name. -/
def lookup? (s : Scope) (name : String) : Option Symbol :=
  s.symbols.find? (·.name == name)

/-- The binding of a name in the innermost block that has one. -/
def binding? (s : Scope) (name : String) : Option ValueType :=
  s.blocks.findSome? (·.lookup name)

/-- **The meaning of a name**: a binding, or else a declaration. -/
def resolve? (s : Scope) (name : String) : Option Meaning :=
  match s.binding? name with
  | some t => some (.bound t)
  | none => (s.lookup? name).map .declared

/-- Whether a name has a meaning. -/
def isDefined (s : Scope) (name : String) : Bool := (s.resolve? name).isSome

/-- Declares a name, unless it has a meaning already: then the symbol is handed
back. -/
def declare (symbol : Symbol) : EStateM Symbol Scope Unit := do
  if (← get).isDefined symbol.name then throw symbol
  modify fun s => { s with symbols := s.symbols ++ [symbol] }

/-- Binds a name in the innermost block, unless it has a meaning already or
there is no block: then the name is handed back. -/
def bindName (name : String) (type : ValueType) : EStateM String Scope Unit := do
  if (← get).isDefined name then throw name
  match (← get).blocks with
  | block :: blocks => modify fun s => { s with blocks := ((name, type) :: block) :: blocks }
  | [] => throw name

/-- Enters a block. -/
def openBlock (s : Scope) : Scope := { s with blocks := [] :: s.blocks }

/-- Leaves the innermost block, if there is one. -/
def closeBlock (s : Scope) : Scope := { s with blocks := s.blocks.tail }

/-- Remembers that a variable was saved. -/
def recordBackup (s : Scope) (name : String) : Scope :=
  { s with backups := name :: s.backups }

/-- Whether a variable was saved. -/
def hasBackup (s : Scope) (name : String) : Bool := s.backups.contains name

end Scope

end MapleCompiler
