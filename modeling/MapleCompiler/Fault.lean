import MapleCompiler.Token.Basic

/-!
# Faults and warnings

A `Fault` is a reason why a script cannot be compiled; `Fault.message` words it
and `Fault.code` numbers it. A `CompileError` is a fault with the place it was
found at and, when that place is in a library, the library's name. The first
fault found ends a compilation. A `Warning` is a finding that does not.

Faults of the text have codes `E0xx`, of the grammar `E1xx`, of names and types
`E2xx`, of libraries `E3xx`; warnings have `W0xx`.
-/

namespace MapleCompiler

/-- **Why a script cannot be compiled.** -/
inductive Fault
  | illegalCharacter (c : Char)
  | unexpectedToken (expected found : String)
  | unexpectedEof (expected : String)
  | malformedFunctionHeader (name found : String)
  | malformedFunctionBody (name : String)
  | misplacedInit
  | missingNamespaceName
  | nestedFunction (name : String)
  | returnOutsideFunction
  | libraryStatement (word : String)
  | redeclared (name : String)
  | invalidType (word : String)
  | indexOutOfRange (name index : String) (size : Nat)
  | undeclared (name : String)
  | assignToConstant (name : String)
  | typeMismatch (target expected found : String)
  | notAnArray (name : String)
  | argumentCount (function : String) (expected found : Nat)
  | libraryNotFound (name : String)
  | duplicateLibrary (name : String)
  | unknownLibrary (name : String)
  | cyclicImport (name : String)
  | libraryUnreadable (name message : String)
  /-- A library is reached through more others than its loader says there are. It says
  that the bound of the loader is wrong, and nothing about the script. -/
  | importsTooDeep (name : String)
deriving DecidableEq

namespace Fault

/-- A fault in words. -/
def message : Fault → String
  | illegalCharacter c => "illegal character '" ++ c.toString ++ "'"
  | unexpectedToken expected found => "expected " ++ expected ++ ", found '" ++ found ++ "'"
  | unexpectedEof expected => "unexpected end of file, expected " ++ expected
  | malformedFunctionHeader name found =>
    "expected ':' after function name '" ++ name ++ "', found '" ++ found ++ "'"
  | malformedFunctionBody name => "expected 'end' to close the body of function '" ++ name ++ "'"
  | misplacedInit => "'init' must be the first statement of the file"
  | missingNamespaceName => "expected a namespace name ('@name') after 'init'"
  | nestedFunction name => "function '" ++ name ++ "' must be defined at the top level"
  | returnOutsideFunction => "return outside of a function body"
  | libraryStatement word => "'" ++ word ++ "' cannot appear at the top level of a library"
  | redeclared name => "variable '" ++ name ++ "' already exists"
  | invalidType word => "invalid type '" ++ word ++ "'"
  | indexOutOfRange name index size =>
    "index " ++ index ++ " out of range for array '" ++ name ++ "' of size " ++ toString size
  | undeclared name => "variable '" ++ name ++ "' not declared"
  | assignToConstant name =>
    "cannot set constant variable '" ++ name ++
      "' (variables are constant unless declared with 'ch')"
  | typeMismatch target expected found =>
    "type mismatch for '" ++ target ++ "': expected " ++ expected ++ ", found " ++ found
  | notAnArray name => "'" ++ name ++ "' is not an array"
  | argumentCount function expected found =>
    "function '" ++ function ++ "' takes " ++ toString expected ++ " argument(s), found " ++
      toString found
  | libraryNotFound name => "library '" ++ name ++ "' does not exist"
  | duplicateLibrary name => "library '" ++ name ++ "' is already imported"
  | unknownLibrary name => "library '" ++ name ++ "' is not imported"
  | cyclicImport name => "library '" ++ name ++ "' imports itself through a cycle"
  | libraryUnreadable name message => "could not read library '" ++ name ++ "': " ++ message
  | importsTooDeep name => "library '" ++ name ++ "' is imported through too many others"

/-- The number of a fault. -/
def code : Fault → String
  | illegalCharacter _ => "E001"
  | unexpectedToken _ _ => "E100"
  | unexpectedEof _ => "E101"
  | malformedFunctionHeader _ _ => "E102"
  | malformedFunctionBody _ => "E103"
  | misplacedInit => "E104"
  | missingNamespaceName => "E105"
  | nestedFunction _ => "E106"
  | returnOutsideFunction => "E107"
  | libraryStatement _ => "E108"
  | redeclared _ => "E200"
  | invalidType _ => "E201"
  | indexOutOfRange _ _ _ => "E202"
  | undeclared _ => "E203"
  | assignToConstant _ => "E204"
  | typeMismatch _ _ _ => "E205"
  | notAnArray _ => "E206"
  | argumentCount _ _ _ => "E207"
  | libraryNotFound _ => "E300"
  | duplicateLibrary _ => "E301"
  | unknownLibrary _ => "E302"
  | cyclicImport _ => "E303"
  | libraryUnreadable _ _ => "E304"
  | importsTooDeep _ => "E305"

/-- What a writer can do about a common fault. -/
def help? : Fault → Option String
  | assignToConstant _ => some "declare it with 'dec ch' to make it changeable"
  | undeclared _ => some "declare it with 'dec' before using it"
  | redeclared _ => some "pick a different name or use 'set' to change the value"
  | invalidType _ => some "valid types are i8, i16, i32, i64, f32, f64, bool, char and str"
  | misplacedInit => some "move 'init' to the top of the file"
  | unknownLibrary _ => some "import it first with 'lib @name'"
  | libraryStatement _ =>
    some "libraries hold only 'dec', 'fnc' and 'lib'; move other statements into a function"
  | libraryNotFound _ =>
    some "libraries are looked up as '<name>.mal' in the library directory"
  | malformedFunctionHeader _ _ =>
    some "function headers look like 'fnc TYPE NAME : TYPE PARAM, ... :'"
  | _ => none

end Fault

/-- **A fault with its place.** -/
structure CompileError where
  fault : Fault
  /-- Where it was found, if it has a place in a text. -/
  span? : Option Span
  /-- The library it was found in, if it was not in the unit itself. -/
  library? : Option String
deriving DecidableEq

namespace CompileError

/-- A fault without a place. -/
def plain (fault : Fault) : CompileError := ⟨fault, none, none⟩

/-- A fault at a stretch of the unit being read. -/
def atSpan (fault : Fault) (span : Span) : CompileError := ⟨fault, some span, none⟩

/-- A fault at a token of the unit being read. -/
def atToken (fault : Fault) (t : Token) : CompileError := atSpan fault t.span

/-- Another token stands where `expected` should. -/
def unexpected (expected : String) (t : Token) : CompileError :=
  atToken (if t.kind = .eof then .unexpectedEof expected else .unexpectedToken expected t.lexeme) t

/-- The error as seen from outside the library `name`: the innermost library
keeps it. -/
def inLibrary (e : CompileError) (name : String) : CompileError :=
  { e with library? := e.library?.or (some name) }

end CompileError

/-- **A finding that does not end a compilation.** -/
structure Warning where
  code : String
  message : String
  span : Span
deriving DecidableEq

/-- The variable `name` is restored, at `span`, though it was never saved. -/
def Warning.restoreWithoutBackup (name : String) (span : Span) : Warning :=
  ⟨"W001", "'" ++ name ++ "' is restored before any backup of it was taken", span⟩

end MapleCompiler
