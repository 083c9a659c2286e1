import MapleCompiler.Compilation
import MapleCompiler.Diagnostic.Basic
import MapleCompiler.Text.Lines

/-!
# From findings to diagnostics

A `SourceFile` is a text with the name it is shown under. Faults and warnings
become diagnostics against the file they were found in: for a finding in a
library that is the library's source, and the diagnostic notes the library.

`diagnose` compiles a unit and gives either the diagnostics of its warnings,
those of libraries first, or the diagnostic of its fault. To show a fault of a
library its source is asked for once more; a source that is gone by then shows
no line.
-/

namespace MapleCompiler

/-- A text and the name it is shown under. -/
structure SourceFile where
  name : String
  text : String

namespace SourceFile

/-- A finding at a place of the file. -/
def locate (f : SourceFile) (d : Diagnostic) (span : Span) : Diagnostic :=
  { d with
    location? := some ⟨f.name, span.line, span.column, span.length⟩
    sourceLine? := Lines.get? f.text span.line }

/-- The diagnostic of a fault found in the file. -/
def reportError (f : SourceFile) (e : CompileError) : Diagnostic :=
  let plain := Diagnostic.plain .error e.fault.code e.fault.message
  let placed := match e.span? with
    | some span => f.locate plain span
    | none => plain
  { placed with
    help? := e.fault.help?
    notes := e.library?.toList.map fun name => "raised while compiling library '" ++ name ++ "'" }

/-- The diagnostic of a warning about the file. -/
def reportWarning (f : SourceFile) (w : Warning) : Diagnostic :=
  f.locate (.plain .warning w.code w.message) w.span

end SourceFile

variable {m : Type → Type} [Monad m]

/-- The diagnostics of the warnings of a compiled unit: those of its libraries,
then its own. -/
def CompiledUnit.diagnostics (unit : CompiledUnit) (loader : Loader m) (file : SourceFile) :
    List Diagnostic :=
  unit.libraries.flatMap (fun header =>
    header.warnings.map (SourceFile.reportWarning ⟨loader.describe header.name, header.source⟩)) ++
  unit.warnings.map file.reportWarning

/-- The diagnostic of a fault of a unit, against the file it was found in. -/
def Loader.reportError (loader : Loader m) (file : SourceFile) (e : CompileError) :
    m Diagnostic := do
  match e.library? with
  | none => return file.reportError e
  | some name =>
    let text := match ← loader.load name with
      | .ok source => source
      | .error _ => ""
    return SourceFile.reportError ⟨loader.describe name, text⟩ e

/-- **Compiles a unit for a reader of messages**: a compiled unit, or the
diagnostic of the fault. -/
def diagnose (loader : Loader m) (d : Dialect) (mode : Cpp.Mode) (file : SourceFile) :
    m (Except Diagnostic CompiledUnit) := do
  match ← (compileUnit loader d mode file.text).run with
  | .ok unit => return .ok unit
  | .error e => return .error (← loader.reportError file e)

end MapleCompiler
