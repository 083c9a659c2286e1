import MapleCompiler.Proofs.Scoping.Site

/-!
# Programs with other names and places

The names in a program can be replaced through a map of texts (`Program.rename`), and the
places that its imports keep through a map of spans (`Program.placed`). Operands are
replaced like names, since a node does not tell them apart; a map for names that leaves
literals as they are does what one expects. The names of libraries stay.
-/

namespace MapleCompiler

section Parts

variable (ρ : String → String)

/-- The call with other names. -/
def Call.rename (c : Call) : Call := ⟨ρ c.function, c.arguments.map ρ⟩

/-- What a variable starts with, with other names. The elements of an array
are literals. -/
def Initializer.rename : Initializer → Initializer
  | value x => value (ρ x)
  | call c => call (c.rename ρ)
  | array size values => array size values

/-- The declaration with other names. -/
def Declaration.rename (d : Declaration) : Declaration :=
  ⟨d.type, ρ d.name, d.initializer.rename ρ, d.constant⟩

/-- What is assigned, with other names. The literal that an element started
with stays. -/
def AssignedValue.rename : AssignedValue → AssignedValue
  | plain x => plain (ρ x)
  | copied array index literal => copied (ρ array) index literal
  | element array index => element (ρ array) (ρ index)

/-- The assignment with other names. -/
def Assignment.rename (a : Assignment) : Assignment :=
  ⟨ρ a.target, a.index?.map ρ, a.value.rename ρ⟩

/-- The condition with other names. -/
def Condition.rename (c : Condition) : Condition := ⟨ρ c.left, c.op, ρ c.right⟩

/-- The head of a function with other names. -/
def Signature.rename (s : Signature) : Signature :=
  ⟨s.returnType, ρ s.name, s.parameters.map fun p => (ρ p.1, p.2)⟩

/-- The calculation with other names. -/
def Calculation.rename (c : Calculation) : Calculation :=
  ⟨c.op, ρ c.left, ρ c.right, c.destination?.map ρ⟩

@[simp] theorem Call.rename_id (c : Call) : c.rename id = c := by simp [Call.rename]

@[simp] theorem Initializer.rename_id (i : Initializer) : i.rename id = i := by
  cases i <;> simp [Initializer.rename]

@[simp] theorem Declaration.rename_id (d : Declaration) : d.rename id = d := by
  simp [Declaration.rename]

@[simp] theorem AssignedValue.rename_id (v : AssignedValue) : v.rename id = v := by
  cases v <;> rfl

@[simp] theorem Assignment.rename_id (a : Assignment) : a.rename id = a := by
  simp [Assignment.rename]

@[simp] theorem Condition.rename_id (c : Condition) : c.rename id = c := rfl

@[simp] theorem Signature.rename_id (s : Signature) : s.rename id = s := by
  simp [Signature.rename]

@[simp] theorem Calculation.rename_id (c : Calculation) : c.rename id = c := by
  simp [Calculation.rename]

end Parts

namespace Node

mutual

/-- **The node with other names.** -/
def rename (ρ : String → String) : Node → Node
  | .run count body => .run (ρ count) (bodyRename ρ body)
  | .declare d => .declare (d.rename ρ)
  | .assign a => .assign (a.rename ρ)
  | .output name index? => .output (ρ name) (index?.map ρ)
  | .ifThen c body => .ifThen (c.rename ρ) (bodyRename ρ body)
  | .elseIf c body => .elseIf (c.rename ρ) (bodyRename ρ body)
  | .otherwise body => .otherwise (bodyRename ρ body)
  | .endIf => .endIf
  | .loop counter start stop body => .loop (ρ counter) (ρ start) (ρ stop) (bodyRename ρ body)
  | .endLoop => .endLoop
  | .save name => .save (ρ name)
  | .restore name => .restore (ρ name)
  | .function s body => .function (s.rename ρ) (bodyRename ρ body)
  | .giveBack value? => .giveBack (value?.map ρ)
  | .call c => .call (c.rename ρ)
  | .calculate c => .calculate (c.rename ρ)
  | .useLibrary name span => .useLibrary name span
  | .openNamespace name => .openNamespace name
  | .qualifiedCall library c => .qualifiedCall library (c.rename ρ)

/-- The nodes of a list with other names. -/
def bodyRename (ρ : String → String) : List Node → List Node
  | [] => []
  | node :: rest => node.rename ρ :: bodyRename ρ rest

end

mutual

/-- **The node with other places of imports.** -/
def placed (f : Span → Span) : Node → Node
  | .run count body => .run count (bodyPlaced f body)
  | .ifThen c body => .ifThen c (bodyPlaced f body)
  | .elseIf c body => .elseIf c (bodyPlaced f body)
  | .otherwise body => .otherwise (bodyPlaced f body)
  | .loop counter start stop body => .loop counter start stop (bodyPlaced f body)
  | .function s body => .function s (bodyPlaced f body)
  | .useLibrary name span => .useLibrary name (f span)
  | node => node

/-- The nodes of a list with other places of imports. -/
def bodyPlaced (f : Span → Span) : List Node → List Node
  | [] => []
  | node :: rest => node.placed f :: bodyPlaced f rest

end

theorem bodyRename_append (ρ : String → String) (nodes rest : List Node) :
    bodyRename ρ (nodes ++ rest) = bodyRename ρ nodes ++ bodyRename ρ rest := by
  induction nodes with
  | nil => rfl
  | cons node nodes ih => rw [List.cons_append, bodyRename, bodyRename, ih, List.cons_append]

theorem bodyPlaced_append (f : Span → Span) (nodes rest : List Node) :
    bodyPlaced f (nodes ++ rest) = bodyPlaced f nodes ++ bodyPlaced f rest := by
  induction nodes with
  | nil => rfl
  | cons node nodes ih => rw [List.cons_append, bodyPlaced, bodyPlaced, ih, List.cons_append]

/-- Replacing names by themselves changes a node only if it changes its body,
so it changes nothing. -/
theorem rename_id_of_body {node : Node} (h : bodyRename id node.body = node.body) :
    node.rename id = node := by
  cases node <;> simp_all [rename, body]

/-- Replacing names by themselves changes nothing, at any depth. By induction
on the nodes and their bodies. -/
@[simp] theorem bodyRename_id (nodes : List Node) : bodyRename id nodes = nodes := by
  induction nodes using bodyInduction with
  | nil => rfl
  | cons node rest ihbody ihrest => rw [bodyRename, rename_id_of_body ihbody, ihrest]

theorem placed_id_of_body {node : Node} (h : bodyPlaced id node.body = node.body) :
    node.placed id = node := by
  cases node <;> simp_all [placed, body]

/-- Places that stay where they are change nothing, at any depth. -/
@[simp] theorem bodyPlaced_id (nodes : List Node) : bodyPlaced id nodes = nodes := by
  induction nodes using bodyInduction with
  | nil => rfl
  | cons node rest ihbody ihrest => rw [bodyPlaced, placed_id_of_body ihbody, ihrest]

end Node

namespace Program

/-- The program with other names. -/
def rename (ρ : String → String) (p : Program) : Program := ⟨Node.bodyRename ρ p.nodes⟩

/-- The program with other places of its imports. -/
def placed (f : Span → Span) (p : Program) : Program := ⟨Node.bodyPlaced f p.nodes⟩

@[simp] theorem rename_id (p : Program) : p.rename id = p := by simp [rename]

@[simp] theorem placed_id (p : Program) : p.placed id = p := by simp [placed]

end Program

end MapleCompiler
