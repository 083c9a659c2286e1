import MapleCompiler.Cpp.Emission

/-!
# An emitter for several programs

`Program.cpp` gives the code of one program. An `Emitter` writes programs one
after the other, line by line into one text, and keeps a state between them:
how deep the next line stands, and what calls are qualified with. What it wrote
for a program is taken out of it at the end of `Emitter.emit`; the rest of its
state stays as it is.
-/

namespace MapleCompiler.Cpp

/-- **An emitter between two lines.** -/
structure Emitter where
  /-- What it makes of programs. -/
  mode : Mode
  /-- What it has written of the current program. -/
  output : String
  /-- How deep the next line stands. -/
  indent : Nat
  /-- The names of the last program it was given. -/
  names : Names

/-- What an emitter does. -/
abbrev Emit (α : Type) : Type := StateM Emitter α

namespace Emitter

/-- An emitter that has written nothing. -/
def new (mode : Mode) : Emitter := ⟨mode, "", 0, ⟨none, []⟩⟩

/-- Writes a line outside of all blocks. -/
def writeFlush (text : String) : Emit Unit :=
  modify fun e => { e with output := e.output ++ text ++ "\n" }

/-- Writes a line as deep as it stands. -/
def writeLine (text : String) : Emit Unit :=
  modify fun e => { e with output := e.output ++ Line.indentation e.indent ++ text ++ "\n" }

/-- Writes the lines of a block one level deeper. -/
def indented (block : Emit Unit) : Emit Unit := do
  modify fun e => { e with indent := e.indent + 1 }
  block
  modify fun e => { e with indent := e.indent - 1 }

/-- Writes a declaration of a variable. -/
def emitDeclaration (d : Declaration) : Emit Unit := do
  writeLine (declaration (← get).names d)

mutual

/-- **Writes a node.** -/
def emitNode : Node → Emit Unit
  | .run count body => do
    writeLine ("for (int run = 0; run < " ++ count ++ "; run++) \x7b")
    indented (emitNodes body)
    writeLine "\x7d"
  | .declare d => emitDeclaration d
  | .assign a => writeLine (assignment a)
  | .output name index? => writeLine ("std::cout << " ++ element name index? ++ " << std::endl;")
  | .ifThen c body => do
    writeLine ("if (" ++ condition c ++ ") \x7b")
    indented (emitNodes body)
  | .elseIf c body => do
    writeLine ("\x7d else if (" ++ condition c ++ ") \x7b")
    indented (emitNodes body)
  | .otherwise body => do
    writeLine "\x7d else \x7b"
    indented (emitNodes body)
  | .endIf => writeLine "\x7d"
  | .loop counter start stop body => do
    writeLine (loopHead counter start stop)
    indented (emitNodes body)
  | .endLoop => writeLine "\x7d"
  | .save name => writeLine (backupMap ++ "[\"" ++ name ++ "\"] = " ++ name ++ ";")
  | .restore name =>
    writeLine (name ++ " = static_cast<decltype(" ++ name ++ ")>(" ++ backupMap ++ "[\"" ++ name ++
      "\"]);")
  | .function s body => do
    writeLine (functionHead s)
    indented (emitNodes body)
    writeLine "\x7d"
  | .giveBack (some value) => writeLine ("return " ++ value ++ ";")
  | .giveBack none => writeLine "return;"
  | .call c => do writeLine (call (← get).names c ++ ";")
  | .calculate c => writeLine (calculation c)
  | .useLibrary _ _ => pure ()
  | .openNamespace _ => pure ()
  | .qualifiedCall library c => writeLine (library ++ "::" ++ plainCall c ++ ";")

/-- Writes the nodes of a block. -/
def emitNodes : List Node → Emit Unit
  | [] => pure ()
  | node :: rest => do
    emitNode node
    emitNodes rest

end

/-- Writes what stands at the top of every generated file. -/
def emitBanner : Emit Unit := do (bannerLines (← get).mode).forM (writeFlush ·.text)

/-- Writes items one by one, and an empty line after them unless there are none. -/
def emitParagraph {α : Type} (items : List α) (write : α → Emit Unit) : Emit Unit := do
  items.forM write
  if items.isEmpty then pure () else writeFlush ""

/-- Writes a function and an empty line. -/
def emitFunction (f : Signature × List Node) : Emit Unit := do
  emitNode (.function f.1 f.2)
  writeFlush ""

/-- Writes a line about the namespace of the program and an empty line, if it has one. -/
def emitNamespaceLine (text : String → String) : Emit Unit := do
  match (← get).names.space? with
  | some space =>
    writeFlush (text space)
    writeFlush ""
  | none => pure ()

/-- Does something in one mode only. -/
def onlyIn (mode : Mode) (action : Emit Unit) : Emit Unit := do
  if (← get).mode = mode then action else pure ()

/-- Writes `main`. -/
def emitMain (statements : List Node) : Emit Unit := do
  writeFlush "int main() \x7b"
  indented do
    emitNodes statements
    writeLine "return 0;"
  writeFlush "\x7d"

/-- Writes all parts of a program. -/
def emitParts (p : Program) : Emit Unit := do
  emitBanner
  emitParagraph p.imports fun name => writeFlush ("#include \"" ++ name ++ ".hpp\"")
  let statements := p.nodes.filter isStatement
  emitNamespaceLine fun space => "namespace " ++ space ++ " \x7b"
  onlyIn .library (emitParagraph (declarations statements) emitDeclaration)
  p.functions.forM emitFunction
  emitNamespaceLine fun space => "\x7d // namespace " ++ space
  onlyIn .program (emitMain statements)

/-- Takes out what was written. -/
def takeOutput : Emit String :=
  modifyGet fun e => (e.output, { e with output := "" })

/-- **Writes a program**, and gives its code. -/
def emit (p : Program) : Emit String := do
  modify fun e => { e with names := Names.ofProgram p }
  emitParts p
  takeOutput

/-- **Writes programs one after the other.** -/
def emitAll (programs : List Program) : Emit (List String) := programs.mapM emit

end Emitter

end MapleCompiler.Cpp
