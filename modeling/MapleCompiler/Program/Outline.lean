import MapleCompiler.Program.Basic

/-!
# Programs as outlines

An `Outline` is a tree for display: texts, named values and groups between an
opening and a closing text. A group with items is shown over several lines,
its items four blanks deeper and with a comma after each. `Program.outline`
lays a program out this way, for a look at what was read.
-/

namespace MapleCompiler

/-- **A tree for display.** -/
inductive Outline
  /-- A text. -/
  | leaf (text : String)
  /-- A value with a name before it. -/
  | named (name : String) (value : Outline)
  /-- Items between two texts. -/
  | group (opening closing : String) (items : List Outline)

namespace Outline

/-- Lines with a text before the first. -/
def prepend (text : String) : List String → List String
  | [] => [text]
  | first :: rest => (text ++ first) :: rest

/-- Lines four blanks deeper, with a comma after the last. -/
def item (lines : List String) : List String :=
  let deeper := lines.map ("    " ++ ·)
  deeper.dropLast ++ (deeper.getLast?.map (· ++ ",")).toList

mutual

/-- The lines of an outline. -/
def lines : Outline → List String
  | leaf text => [text]
  | named name value => prepend (name ++ ": ") value.lines
  | group opening closing items =>
    match items with
    | [] => [opening ++ closing]
    | first :: rest => opening :: (item first.lines ++ itemLines rest ++ [closing])

/-- The lines of the items of a group. -/
def itemLines : List Outline → List String
  | [] => []
  | first :: rest => item first.lines ++ itemLines rest

end

/-- The text of an outline. -/
def render (o : Outline) : String := String.join (o.lines.map (· ++ "\n"))

/-- A character inside quotes. -/
def quotedChar : Char → List Char
  | '"' => ['\\', '"']
  | '\\' => ['\\', '\\']
  | '\n' => ['\\', 'n']
  | '\r' => ['\\', 'r']
  | '\t' => ['\\', 't']
  | c => [c]

/-- A text in quotes. -/
def quote (text : String) : Outline :=
  leaf ("\"" ++ String.ofList (text.toList.flatMap quotedChar) ++ "\"")

/-- A number. -/
def number (n : Nat) : Outline := leaf (toString n)

/-- Named fields in braces. -/
def record (name : String) (fields : List (String × Outline)) : Outline :=
  group (name ++ " \x7b") "\x7d" (fields.map fun field => named field.1 field.2)

/-- Values in parentheses. -/
def tuple (name : String) (values : List Outline) : Outline := group (name ++ "(") ")" values

/-- Values in brackets. -/
def list (values : List Outline) : Outline := group "[" "]" values

/-- A text that may be missing. -/
def optional : Option String → Outline
  | some text => tuple "Some" [quote text]
  | none => leaf "None"

/-- A truth value. -/
def flag (b : Bool) : Outline := leaf (if b then "true" else "false")

/-- Texts in brackets. -/
def quotes (texts : List String) : Outline := list (texts.map quote)

/-- A type. -/
def ofType (t : ValueType) : Outline := leaf (TokenKind.type t).name

/-- A comparison. -/
def ofComparison : Comparison → Outline
  | .greater => leaf "Greater"
  | .less => leaf "Less"
  | .equal => leaf "Equal"
  | .greaterEqual => leaf "GreaterEqual"
  | .lessEqual => leaf "LessEqual"
  | .notEqual => leaf "NotEqual"

/-- A stretch of text. -/
def ofSpan (s : Span) : Outline :=
  record "Span" [("offset", number s.offset), ("length", number s.length),
    ("line", number s.line), ("column", number s.column)]

/-- A call. -/
def ofCall (c : Call) : Outline :=
  record "CallNode" [("function", quote c.function), ("args", quotes c.arguments)]

/-- What a variable starts with. -/
def ofInitializer : Initializer → Outline
  | .value text => tuple "Value" [quote text]
  | .call c => tuple "Call" [ofCall c]
  | .array size values => record "Array" [("size", number size), ("values", quotes values)]

/-- What is assigned. -/
def ofAssigned : AssignedValue → Outline
  | .plain text => tuple "Plain" [quote text]
  | .copied array index literal =>
    record "Copied" [("array", quote array), ("index", number index), ("literal", quote literal)]
  | .element array index => record "Indexed" [("array", quote array), ("index", quote index)]

/-- A condition. -/
def ofCondition (c : Condition) : Outline :=
  record "Condition" [("left", quote c.left), ("op", ofComparison c.op), ("right", quote c.right)]

/-- A declaration. -/
def ofDeclaration (d : Declaration) : Outline :=
  record "DeclareNode" [("ty", ofType d.type), ("name", quote d.name),
    ("init", ofInitializer d.initializer), ("is_constant", flag d.constant)]

/-- An assignment. -/
def ofAssignment (a : Assignment) : Outline :=
  record "SetNode" [("target", quote a.target), ("target_index", optional a.index?),
    ("value", ofAssigned a.value)]

/-- An arithmetic statement. -/
def ofCalculation (c : Calculation) : Outline :=
  record "ExpressionNode" [("op", leaf (TokenKind.arithmetic c.op).name), ("left", quote c.left),
    ("right", quote c.right), ("destination", optional c.destination?)]

/-- The parameters of a function. -/
def ofParameters (parameters : List (String × ValueType)) : Outline :=
  list (parameters.map fun p => tuple "" [quote p.1, ofType p.2])

mutual

/-- A node. -/
def ofNode : Node → Outline
  | .run count body => record "Run" [("count", quote count), ("body", list (ofNodes body))]
  | .declare d => tuple "Declare" [ofDeclaration d]
  | .assign a => tuple "Set" [ofAssignment a]
  | .output name index? => record "Output" [("name", quote name), ("index", optional index?)]
  | .ifThen c body => tuple "If" [record "ConditionalNode" [("condition", ofCondition c),
      ("body", list (ofNodes body))]]
  | .elseIf c body => tuple "Elif" [record "ConditionalNode" [("condition", ofCondition c),
      ("body", list (ofNodes body))]]
  | .otherwise body => record "Else" [("body", list (ofNodes body))]
  | .endIf => leaf "End"
  | .loop counter start stop body => tuple "Loop" [record "LoopNode" [("variable", quote counter),
      ("start", quote start), ("end", quote stop), ("body", list (ofNodes body))]]
  | .endLoop => leaf "Roll"
  | .save name => record "SaveState" [("name", quote name)]
  | .restore name => record "RestoreState" [("name", quote name)]
  | .function s body => tuple "Function" [record "FunctionNode"
      [("return_type", ofType s.returnType), ("name", quote s.name),
        ("params", ofParameters s.parameters), ("body", list (ofNodes body))]]
  | .giveBack value? => record "Return" [("value", optional value?)]
  | .call c => tuple "Call" [ofCall c]
  | .calculate c => tuple "Expression" [ofCalculation c]
  | .useLibrary name span => record "LibraryImport" [("module", quote name), ("span", ofSpan span)]
  | .openNamespace name => record "NamespaceInit" [("namespace", quote name)]
  | .qualifiedCall library c =>
    record "QualifiedCall" [("module", quote library), ("call", ofCall c)]

/-- The nodes of a list. -/
def ofNodes : List Node → List Outline
  | [] => []
  | node :: rest => ofNode node :: ofNodes rest

end

end Outline

/-- **The outline of a program.** -/
def Program.outline (p : Program) : Outline :=
  .record "Program" [("nodes", .list (Outline.ofNodes p.nodes))]

end MapleCompiler
