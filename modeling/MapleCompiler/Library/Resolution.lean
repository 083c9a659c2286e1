import MapleCompiler.Cpp.Emission
import MapleCompiler.Library.Loader
import MapleCompiler.Program.Block

/-!
# Compiling the libraries of a unit

A unit names the libraries it imports, and they name theirs. `Loader.compile`
compiles one library after all that it imports, each of them once; a library
that imports itself through others is refused. The result lists the compiled
libraries so that each stands after those it imports.

Libraries that are being compiled at the same time are all different, so the
number of libraries of the loader bounds the depth of the recursion. If a loader
says less than that, the recursion may come to the bound; this is a fault of its own.
-/

namespace MapleCompiler

/-- **A compiled library.** -/
structure Header where
  name : String
  source : String
  /-- The header in C++. -/
  code : String
  warnings : List Warning
deriving DecidableEq

/-- The file that a header of a library goes to. -/
def headerFile (name : String) : String := name ++ ".hpp"

namespace Loader

variable {m : Type → Type} [Monad m]

/-- A fault of an import, at the place that asks for it. -/
def importError (fault : Fault) (site? : Option Span) : CompileError := ⟨fault, site?, none⟩

/-- **Compiles the library `name` and all that it imports**, after those in
`done`. The libraries in `opened` wait for it, and `site?` is where it is
imported. At most `depth` more libraries may be opened. -/
def compile (loader : Loader m) : (depth : Nat) → (opened : List String) → (name : String) →
    (site? : Option Span) → (done : List Header) → ExceptT CompileError m (List Header)
  | depth, opened, name, site?, done => do
    if done.any (·.name == name) then return done
    else if opened.contains name then throw (importError (.cyclicImport name) site?)
    else if !(← loader.contains name) then throw (importError (.libraryNotFound name) site?)
    else
      match ← loader.load name with
      | .error message =>
        throw (importError (.libraryUnreadable (loader.describe name) message) site?)
      | .ok source =>
        match depth with
        | 0 => throw (importError (.importsTooDeep name) site?)
        | depth + 1 =>
          let inside : ExceptT CompileError m (List Header) := do
            let (program, warnings) ← Program.ofText .maple true source
            let done ← program.importSites.foldlM
              (fun done (library, span) =>
                compile loader depth (name :: opened) library (some span) done) done
            return done ++ [⟨name, source, program.cpp .library, warnings⟩]
          inside.adapt (·.inLibrary name)

/-- The compiled libraries that a program needs, each after those it imports. -/
def resolve (loader : Loader m) (program : Program) : ExceptT CompileError m (List Header) :=
  program.importSites.foldlM
    (fun done (library, span) => loader.compile loader.limit [] library (some span) done) []

/-- A library by itself, after all that it imports. -/
def resolveLibrary (loader : Loader m) (name : String) : ExceptT CompileError m (List Header) :=
  loader.compile loader.limit [] name none []

end Loader

end MapleCompiler
