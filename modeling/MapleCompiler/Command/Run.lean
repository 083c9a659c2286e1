import MapleCompiler.Command.Options
import MapleCompiler.Diagnostic.Report
import MapleCompiler.Host.Basic
import MapleCompiler.Path
import MapleCompiler.Program.Outline

/-!
# Running the command line

`Command.run` does on a host what the arguments ask for, and gives the exit
code: zero when all went well, one for a failure and two for wrong arguments.

To compile an input is to read it, to compile it with the libraries of the
library directory, and to write the program and the headers of its libraries
to the output directory. Nothing is written unless the whole unit compiles.
On request the program is then built by a C++ compiler and run.
-/

namespace MapleCompiler

/-- The name and version of the compiler. -/
def versionText : String := "maplec 0.1.0"

/-- How the command line is used. -/
def usageText : String :=
  "usage: maplec INPUT [-o DIR] [--lib-dir DIR] [--run] [--cxx COMPILER] " ++
    "[--dump-ast] [--dump-tokens]"

/-- The arguments that make a C++ compiler build `program` from `source`, with
the headers next to it. -/
def buildArguments (source program : String) : List String :=
  ["-std=c++17", "-I", Path.directory source, source, "-o", program]

/-- The program built from a generated file. -/
def builtProgram (source : String) : String := Path.dropExtension source

/-- A count of things. -/
def plural (count : Nat) (word : String) : String :=
  toString count ++ " " ++ word ++ (if count = 1 then "" else "s")

/-- The dialect of an input, by its extension; libraries are no inputs. -/
def inputDialect? (input : String) : Option Dialect :=
  match Path.extension? input with
  | some ext => if ext = libraryExtension then none else Dialect.ofExtension? ext
  | none => none

/-- The listing of the tokens of a text; none if it has an illegal character. -/
def tokenDump (d : Dialect) (source : String) : String :=
  match Token.scan d source with
  | .ok tokens =>
    "=== Tokens ===\n" ++ String.join (tokens.map fun t => "  " ++ t.display ++ "\n") ++ "\n"
  | .error _ => ""

/-- The outline of the program of a text; none if it cannot be read. -/
def programDump (d : Dialect) (source : String) : String :=
  match Program.ofText d false source with
  | .ok (program, _) => "=== AST ===\n" ++ program.outline.render ++ "\n"
  | .error _ => ""

/-- The path of a library in a directory. -/
def libraryPath (directory name : String) : String := Path.join directory (libraryFile name)

/-- **The libraries in a directory of a host.** -/
def Host.loader {m : Type → Type} (host : Host m) (directory : String) (limit : Nat) :
    Loader m where
  contains name := host.isFile (libraryPath directory name)
  load name := host.readText (libraryPath directory name)
  describe := libraryPath directory
  limit := limit

namespace Command

variable {m : Type → Type} [Monad m]

/-- A step that may end the run with an exit code. -/
abbrev Step (m : Type → Type) (α : Type) : Type := ExceptT Nat m α

/-- Ends the run with a message. -/
def fail {α : Type} (host : Host m) (coloured : Bool) (message : String) : Step m α := do
  host.complain (Level.error.paint.apply coloured "error" ++ ": " ++ message ++ "\n")
  throw 1

/-- Tells about a result. -/
def announce (host : Host m) (coloured : Bool) (word text : String) : Step m Unit :=
  host.print (Colour.green.strong.apply coloured word ++ ": " ++ text ++ "\n")

/-- Compiles a source, with its warnings or its fault on the stream for
messages. -/
def compile (host : Host m) (coloured : Bool) (options : Options) (d : Dialect)
    (source : String) : Step m CompiledUnit := do
  if options.dumpTokens then host.complain (tokenDump d source)
  if options.dumpProgram then host.complain (programDump d source)
  let loader := host.loader options.libraryDirectory (← host.fileBound)
  let file : SourceFile := ⟨options.input, source⟩
  match ← (diagnose loader d .program file : m (Except Diagnostic CompiledUnit)) with
  | .ok unit =>
    (unit.diagnostics loader file).forM fun diagnostic =>
      host.complain (diagnostic.render coloured ++ "\n")
    return unit
  | .error diagnostic =>
    host.complain (diagnostic.render coloured ++ "\n")
    host.complain ("\n" ++ Colour.red.strong.apply coloured (plural 1 "error") ++ " generated\n")
    throw 1

/-- Writes the headers and the program of a unit to a directory. Gives the path
of the program. -/
def write (host : Host m) (directory stem : String) (unit : CompiledUnit) :
    ExceptT String m String := do
  ExceptT.mk (host.createDirectories directory)
  unit.libraries.forM fun header =>
    ExceptT.mk (host.writeText (Path.join directory (headerFile header.name)) header.code)
  let output := Path.join directory (outputFile stem)
  ExceptT.mk (host.writeText output unit.code)
  return output

/-- Builds a generated program and runs it. -/
def buildAndRun (host : Host m) (coloured : Bool) (compiler source : String) : Step m Unit := do
  let program := builtProgram source
  match ← host.launch compiler (buildArguments source program) with
  | .error message => fail host coloured ("could not start '" ++ compiler ++ "': " ++ message)
  | .ok state =>
    if !state.isSuccess then
      fail host coloured
        ("'" ++ compiler ++ "' failed to build '" ++ source ++ "' (" ++ state.display ++ ")")
  announce host coloured "built" program
  match ← host.launch program [] with
  | .error message => fail host coloured ("could not run '" ++ program ++ "': " ++ message)
  | .ok state =>
    if !state.isSuccess then
      host.complain (Level.warning.paint.apply coloured "warning" ++ ": program exited with " ++
        state.display ++ "\n")
      throw 1

/-- Compiles an input and does with the result what the options say. -/
def compileInput (host : Host m) (coloured : Bool) (options : Options) : Step m Unit := do
  match inputDialect? options.input, Path.stem? options.input with
  | none, _ =>
    fail host coloured ("input file must have a ." ++ Dialect.maple.sourceExtension ++ " or ." ++
      Dialect.legacy.sourceExtension ++ " extension: " ++ options.input)
  | some _, none => fail host coloured ("invalid input file name: " ++ options.input)
  | some d, some stem =>
    let directory := options.outputDirectory?.getD (Path.directory options.input)
    match ← host.readText options.input with
    | .error message =>
      fail host coloured ("could not read file '" ++ options.input ++ "': " ++ message)
    | .ok source =>
      let unit ← compile host coloured options d source
      match ← (write host directory stem unit).run with
      | .error message =>
        fail host coloured ("could not write output to '" ++ directory ++ "': " ++ message)
      | .ok output =>
        announce host coloured "compiled" (options.input ++ " -> " ++ output)
        unit.libraries.forM fun header =>
          announce host coloured "library"
            ("@" ++ header.name ++ " -> " ++ Path.join directory (headerFile header.name))
        if options.run then buildAndRun host coloured options.compiler output

/-- **Does what the arguments ask for.** Gives the exit code. -/
def run (host : Host m) (coloured : Bool) (arguments : List String) : m Nat := do
  match Request.ofArguments arguments with
  | .version =>
    host.print (versionText ++ "\n")
    return 0
  | .help =>
    host.print (usageText ++ "\n")
    return 0
  | .misuse message =>
    host.complain ("error: " ++ message ++ "\n\n" ++ usageText ++ "\n")
    return 2
  | .compile options =>
    match ← (compileInput host coloured options).run with
    | .ok () => return 0
    | .error code => return code

end Command

end MapleCompiler
