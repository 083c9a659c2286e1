import MapleCompiler.Text.Span
import MapleCompiler.Token.Kind

/-!
# Programs

A program is a list of nodes in the order of its text. Operands are kept as
they were written: a literal or a name. Statements with a body hold it as a
list of nodes; the words that close a conditional or a loop are nodes of their
own, right after the last part they close.
-/

namespace MapleCompiler

/-- A call of a function with its arguments. -/
structure Call where
  function : String
  arguments : List String
deriving DecidableEq

/-- What a declared variable starts with. -/
inductive Initializer
  /-- A literal or a name. -/
  | value (text : String)
  /-- The result of a call. -/
  | call (call : Call)
  /-- An array of a size, with literals for its first elements. -/
  | array (size : Nat) (values : List String)
deriving DecidableEq

/-- A declaration of a variable. -/
structure Declaration where
  type : ValueType
  name : String
  initializer : Initializer
  constant : Bool
deriving DecidableEq

/-- What is assigned to a variable or element. -/
inductive AssignedValue
  /-- A literal or a name. -/
  | plain (text : String)
  /-- The literal that an element of an array started with. -/
  | copied (array : String) (index : Nat) (literal : String)
  /-- The element of an array, read when the program runs. -/
  | element (array index : String)
deriving DecidableEq

/-- An assignment to a variable or to an element of an array. -/
structure Assignment where
  target : String
  index? : Option String
  value : AssignedValue
deriving DecidableEq

/-- A comparison of two operands. -/
structure Condition where
  left : String
  op : Comparison
  right : String
deriving DecidableEq

/-- The head of a function. -/
structure Signature where
  returnType : ValueType
  name : String
  parameters : List (String × ValueType)
deriving DecidableEq

/-- An arithmetic statement. The result goes to the destination, or to the left
operand if there is none. -/
structure Calculation where
  op : Arithmetic
  left : String
  right : String
  destination? : Option String
deriving DecidableEq

/-- **A part of a program.** -/
inductive Node
  /-- The body, a number of times. -/
  | run (count : String) (body : List Node)
  | declare (declaration : Declaration)
  | assign (assignment : Assignment)
  /-- Prints a value or an element. -/
  | output (name : String) (index? : Option String)
  | ifThen (condition : Condition) (body : List Node)
  | elseIf (condition : Condition) (body : List Node)
  | otherwise (body : List Node)
  /-- Closes a conditional. -/
  | endIf
  /-- The body, with the counter from `start` up to `stop`. -/
  | loop (counter start stop : String) (body : List Node)
  /-- Closes a loop. -/
  | endLoop
  /-- Saves the value of a variable. -/
  | save (name : String)
  /-- Brings back the saved value of a variable. -/
  | restore (name : String)
  | function (signature : Signature) (body : List Node)
  | giveBack (value? : Option String)
  | call (call : Call)
  | calculate (calculation : Calculation)
  /-- Imports a library; the span covers its name. -/
  | useLibrary (name : String) (span : Span)
  /-- Puts the functions of the unit into a namespace. -/
  | openNamespace (name : String)
  /-- Calls a function of a library. -/
  | qualifiedCall (library : String) (call : Call)

/-- **A unit of the language.** -/
structure Program where
  nodes : List Node

namespace Program

/-- The namespace that the first node opens. -/
def namespace? (p : Program) : Option String :=
  match p.nodes with
  | .openNamespace name :: _ => some name
  | _ => none

/-- The imported libraries with the places of their names. -/
def importSites (p : Program) : List (String × Span) :=
  p.nodes.filterMap fun
    | .useLibrary name span => some (name, span)
    | _ => none

/-- The imported libraries. -/
def imports (p : Program) : List String := p.importSites.map (·.1)

/-- The functions at the top level. -/
def functions (p : Program) : List (Signature × List Node) :=
  p.nodes.filterMap fun
    | .function signature body => some (signature, body)
    | _ => none

end Program

end MapleCompiler
