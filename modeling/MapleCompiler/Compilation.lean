import MapleCompiler.Library.Resolution

/-!
# Compiling a unit

`compileUnit` compiles the text of a unit together with the libraries it
imports, and `compileLibrary` a library by itself. The first fault ends either;
faults of the unit's own text come before those of its libraries.
-/

namespace MapleCompiler

/-- **A compiled unit.** -/
structure CompiledUnit where
  /-- The unit in C++. -/
  code : String
  /-- The libraries it needs, each after those it imports. -/
  libraries : List Header
  warnings : List Warning
deriving DecidableEq

/-- What the name of a generated program adds to that of its source. -/
def outputSuffix : String := "_Maple"

/-- The file that the program compiled from `stem` goes to. -/
def outputFile (stem : String) : String := stem ++ outputSuffix ++ ".cpp"

/-- Whether a unit of a mode is read as a library. -/
def Cpp.Mode.isLibrary : Cpp.Mode → Bool
  | .library => true
  | .program => false

/-- **Compiles the text of a unit.** -/
def compileUnit {m : Type → Type} [Monad m] (loader : Loader m) (d : Dialect) (mode : Cpp.Mode)
    (source : String) : ExceptT CompileError m CompiledUnit := do
  let (program, warnings) ← Program.ofText d mode.isLibrary source
  let libraries ← loader.resolve program
  return ⟨program.cpp mode, libraries, warnings⟩

/-- **The header of a library.** It is the last one that is finished. -/
def compileLibrary {m : Type → Type} [Monad m] (loader : Loader m) (name : String) :
    ExceptT CompileError m String := do
  match (← loader.resolveLibrary name).getLast? with
  | some header => return header.code
  | none => throw (.plain (.libraryNotFound name))

end MapleCompiler
