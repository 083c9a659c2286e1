import MapleCompiler.Cpp.Line
import MapleCompiler.Program.Basic

/-!
# Programs in C++

`Program.cpp` writes a unit as C++ code. A *program* becomes a file with a
`main`; a *library* becomes a header with its variables and functions. Either
way the code begins with a banner, the includes it needs, the map that saved
values go to and the headers of imported libraries.

Functions stand before `main`, inside the unit's namespace if it has one; a
call of one of them is qualified with the namespace, because `main` stands
outside of it. Every node becomes a few lines, at the depth of the block it
stands in.
-/

namespace MapleCompiler.Cpp

/-- What a unit becomes. -/
inductive Mode
  /-- A file with a `main`. -/
  | program
  /-- A header. -/
  | library
deriving DecidableEq

/-- **What calls are qualified with**: the namespace of the unit and its
functions. -/
structure Names where
  space? : Option String
  functions : List String

/-- The names of a unit. -/
def Names.ofProgram (p : Program) : Names :=
  ⟨p.namespace?, p.functions.map (·.1.name)⟩

/-- The map that holds saved values. -/
def backupMap : String := "maple_backups"

/-- Operands with commas between them. -/
def commaSeparated (items : List String) : String := ", ".intercalate items

/-- A call without qualification. -/
def plainCall (c : Call) : String := c.function ++ "(" ++ commaSeparated c.arguments ++ ")"

/-- A call from anywhere in the unit. -/
def call (names : Names) (c : Call) : String :=
  match names.space? with
  | some space => if names.functions.contains c.function then space ++ "::" ++ plainCall c
    else plainCall c
  | none => plainCall c

/-- A variable, or an element of one. -/
def element (name : String) (index? : Option String) : String :=
  match index? with
  | some index => name ++ "[" ++ index ++ "]"
  | none => name

/-- A condition without its parentheses. -/
def condition (c : Condition) : String := c.left ++ " " ++ c.op.mark ++ " " ++ c.right

/-- A declaration of a variable. -/
def declaration (names : Names) (d : Declaration) : String :=
  let head := (if d.constant then "const " else "") ++ d.type.cpp ++ " " ++ d.name
  match d.initializer with
  | .value text => head ++ " = " ++ text ++ ";"
  | .call c => head ++ " = " ++ call names c ++ ";"
  | .array size values =>
    head ++ "[" ++ toString size ++ "] = \x7b" ++ commaSeparated values ++ "\x7d;"

/-- What an assignment stores. A copied literal is written as it is. -/
def assignedValue : AssignedValue → String
  | .plain text => text
  | .copied _ _ literal => literal
  | .element array index => element array (some index)

/-- An assignment. -/
def assignment (a : Assignment) : String :=
  element a.target a.index? ++ " = " ++ assignedValue a.value ++ ";"

/-- An arithmetic statement. -/
def calculation (c : Calculation) : String :=
  match c.destination? with
  | some destination =>
    destination ++ " = " ++ c.left ++ " " ++ c.op.mark ++ " " ++ c.right ++ ";"
  | none => c.left ++ " " ++ c.op.mark ++ "= " ++ c.right ++ ";"

/-- The line that opens the definition of a function. -/
def functionHead (s : Signature) : String :=
  let parameters := s.parameters.map fun p => p.2.cpp ++ " " ++ p.1
  s.returnType.cpp ++ " " ++ s.name ++ "(" ++ commaSeparated parameters ++ ") \x7b"

/-- The line that opens a counted loop. -/
def loopHead (counter start stop : String) : String :=
  "for (int32_t " ++ counter ++ " = " ++ start ++ "; " ++ counter ++ " < " ++ stop ++ "; " ++
    counter ++ "++) \x7b"

mutual

/-- **The lines of a node** in a block at a depth. -/
def nodeLines (names : Names) (depth : Nat) : Node → List Line
  | .run count body =>
    ⟨depth, "for (int run = 0; run < " ++ count ++ "; run++) \x7b"⟩ ::
      (bodyLines names (depth + 1) body ++ [⟨depth, "\x7d"⟩])
  | .declare d => [⟨depth, declaration names d⟩]
  | .assign a => [⟨depth, assignment a⟩]
  | .output name index? => [⟨depth, "std::cout << " ++ element name index? ++ " << std::endl;"⟩]
  | .ifThen c body =>
    ⟨depth, "if (" ++ condition c ++ ") \x7b"⟩ :: bodyLines names (depth + 1) body
  | .elseIf c body =>
    ⟨depth, "\x7d else if (" ++ condition c ++ ") \x7b"⟩ :: bodyLines names (depth + 1) body
  | .otherwise body => ⟨depth, "\x7d else \x7b"⟩ :: bodyLines names (depth + 1) body
  | .endIf => [⟨depth, "\x7d"⟩]
  | .loop counter start stop body =>
    ⟨depth, loopHead counter start stop⟩ :: bodyLines names (depth + 1) body
  | .endLoop => [⟨depth, "\x7d"⟩]
  | .save name => [⟨depth, backupMap ++ "[\"" ++ name ++ "\"] = " ++ name ++ ";"⟩]
  | .restore name =>
    [⟨depth, name ++ " = static_cast<decltype(" ++ name ++ ")>(" ++ backupMap ++ "[\"" ++ name ++
      "\"]);"⟩]
  | .function s body =>
    ⟨depth, functionHead s⟩ :: (bodyLines names (depth + 1) body ++ [⟨depth, "\x7d"⟩])
  | .giveBack (some value) => [⟨depth, "return " ++ value ++ ";"⟩]
  | .giveBack none => [⟨depth, "return;"⟩]
  | .call c => [⟨depth, call names c ++ ";"⟩]
  | .calculate c => [⟨depth, calculation c⟩]
  | .useLibrary _ _ => []
  | .openNamespace _ => []
  | .qualifiedCall library c => [⟨depth, library ++ "::" ++ plainCall c ++ ";"⟩]

/-- The lines of the nodes of a block at a depth. -/
def bodyLines (names : Names) (depth : Nat) : List Node → List Line
  | [] => []
  | node :: rest => nodeLines names depth node ++ bodyLines names depth rest

end

/-- The lines at the top of every generated file. -/
def bannerLines (mode : Mode) : List Line :=
  (match mode with
    | .library => [Line.flush "#pragma once"]
    | .program => []) ++
  [.flush "// Generated by maplec",
    .flush "// Do not edit - regenerate from the Maple source",
    .blank,
    .flush "#include <cstdint>",
    .flush "#include <iostream>",
    .flush "#include <map>",
    .flush "#include <string>",
    .blank,
    .flush "#ifndef MAPLE_BACKUPS",
    .flush "#define MAPLE_BACKUPS",
    .flush ("static std::map<std::string, long double> " ++ backupMap ++ ";"),
    .flush "#endif",
    .blank]

/-- Lines with an empty line after them, unless there are none. -/
def paragraph (lines : List Line) : List Line :=
  if lines.isEmpty then [] else lines ++ [.blank]

/-- Whether a node belongs to the statements of a unit, not to its functions
and its head. -/
def isStatement : Node → Bool
  | .function _ _ => false
  | .useLibrary _ _ => false
  | .openNamespace _ => false
  | _ => true

/-- The declarations among some nodes. -/
def declarations (nodes : List Node) : List Declaration :=
  nodes.filterMap fun
    | .declare d => some d
    | _ => none

/-- The lines of the includes of imported libraries. -/
def importLines (p : Program) : List Line :=
  paragraph (p.imports.map fun name => .flush ("#include \"" ++ name ++ ".hpp\""))

/-- The lines of the variables of a library, before the functions that read
them. -/
def variableLines (mode : Mode) (names : Names) (p : Program) : List Line :=
  match mode with
  | .library => paragraph ((declarations p.nodes).map fun d => .flush (declaration names d))
  | .program => []

/-- The lines of the functions of a unit. -/
def functionLines (names : Names) (p : Program) : List Line :=
  p.functions.flatMap fun (s, body) => paragraph (nodeLines names 0 (.function s body))

/-- The lines of `main`. -/
def mainLines (mode : Mode) (names : Names) (p : Program) : List Line :=
  match mode with
  | .program =>
    .flush "int main() \x7b" :: (bodyLines names 1 (p.nodes.filter isStatement) ++
      [⟨1, "return 0;"⟩, .flush "\x7d"])
  | .library => []

/-- Lines inside the namespace of a unit, if it has one. -/
def inNamespace (space? : Option String) (lines : List Line) : List Line :=
  match space? with
  | none => lines
  | some space =>
    [.flush ("namespace " ++ space ++ " \x7b"), .blank] ++ lines ++
      [.flush ("\x7d // namespace " ++ space), .blank]

/-- **The lines of a unit.** -/
def programLines (mode : Mode) (p : Program) : List Line :=
  let names := Names.ofProgram p
  bannerLines mode ++ importLines p ++
    inNamespace names.space? (variableLines mode names p ++ functionLines names p) ++
    mainLines mode names p

end MapleCompiler.Cpp

namespace MapleCompiler

/-- **A unit as C++ code.** -/
def Program.cpp (mode : Cpp.Mode) (p : Program) : String := Cpp.render (Cpp.programLines mode p)

end MapleCompiler
