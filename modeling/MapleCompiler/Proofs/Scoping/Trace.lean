import Mathlib.Data.List.Nodup
import MapleCompiler.Cpp.Emission
import MapleCompiler.Proofs.Scoping.Site

/-!
# Where the lines of a program come from

Most nodes of a program become one line of their own, before the lines of their
body. A *trace* is a list of lines in which the line of a node is marked with
the site of the node; lines that close a body or belong to the file as a whole
have no mark. `Program.trace` is the trace of a program with a `main`: without
its marks it is exactly what is written (`Program.lines_trace`), every node that
is written has its line there (`Program.exists_mem_trace`), and no site marks
two lines (`Program.nodup_sites_trace`). The lines of a list of nodes are in the
order of their sites (`pairwise_sites_traceList`).
-/

namespace MapleCompiler.Cpp

/-- **Lines with the sites of their nodes.** -/
abbrev Trace : Type := List (Option Site × Line)

namespace Trace

/-- The lines of a trace. -/
def lines (t : Trace) : List Line := t.map Prod.snd

/-- The sites of a trace. -/
def sites (t : Trace) : List Site := t.filterMap Prod.fst

/-- Lines of no node. -/
def plain (ls : List Line) : Trace := ls.map fun line => (none, line)

variable (t t' : Trace) (e : Option Site × Line)

@[simp] theorem lines_nil : lines [] = [] := rfl

@[simp] theorem lines_cons : lines (e :: t) = e.2 :: lines t := rfl

@[simp] theorem lines_append : lines (t ++ t') = lines t ++ lines t' := List.map_append

@[simp] theorem lines_plain (ls : List Line) : lines (plain ls) = ls := by
  unfold lines plain
  rw [List.map_map]
  exact List.map_id ls

@[simp] theorem sites_nil : sites [] = [] := rfl

@[simp] theorem sites_append : sites (t ++ t') = sites t ++ sites t' := List.filterMap_append

@[simp] theorem sites_plain (ls : List Line) : sites (plain ls) = [] := by
  unfold sites plain
  rw [List.filterMap_map]
  exact List.filterMap_none ls

@[simp] theorem sites_cons_none (line : Line) : sites ((none, line) :: t) = sites t := rfl

@[simp] theorem sites_cons_some (σ : Site) (line : Line) :
    sites ((some σ, line) :: t) = σ :: sites t := rfl

theorem mem_sites {t : Trace} {σ : Site} : σ ∈ sites t ↔ ∃ line, (some σ, line) ∈ t := by
  simp [sites]

@[simp] theorem not_mem_plain {ls : List Line} {σ : Site} {line : Line} :
    (some σ, line) ∉ plain ls := by
  simp [plain]

end Trace

/-! ## Nodes -/

/-- Whether a node has a line of its own. -/
def isWritten : Node → Bool
  | .useLibrary _ _ | .openNamespace _ => false
  | _ => true

/-- The text of the line of a node. -/
def lineText (names : Names) (node : Node) : String :=
  match nodeLines names 0 node with
  | line :: _ => line.text
  | [] => ""

/-- The line of a node, before its body. -/
def opening (names : Names) (depth : Nat) (σ : Site) (node : Node) : Trace :=
  if isWritten node then [(some σ, ⟨depth, lineText names node⟩)] else []

/-- The line after the body of a node. Conditionals and loops are closed by
nodes of their own. -/
def closing (depth : Nat) : Node → Trace
  | .run _ _ | .function _ _ => [(none, ⟨depth, "\x7d"⟩)]
  | _ => []

mutual

/-- **The trace of a node** at a site. -/
def traceNode (names : Names) (depth : Nat) (σ : Site) : Node → Trace
  | .run count body =>
    opening names depth σ (.run count body) ++
      (traceList (fun _ => true) names (depth + 1) σ 0 body ++ closing depth (.run count body))
  | .ifThen c body =>
    opening names depth σ (.ifThen c body) ++
      (traceList (fun _ => true) names (depth + 1) σ 0 body ++ closing depth (.ifThen c body))
  | .elseIf c body =>
    opening names depth σ (.elseIf c body) ++
      (traceList (fun _ => true) names (depth + 1) σ 0 body ++ closing depth (.elseIf c body))
  | .otherwise body =>
    opening names depth σ (.otherwise body) ++
      (traceList (fun _ => true) names (depth + 1) σ 0 body ++ closing depth (.otherwise body))
  | .loop counter start stop body =>
    opening names depth σ (.loop counter start stop body) ++
      (traceList (fun _ => true) names (depth + 1) σ 0 body ++
        closing depth (.loop counter start stop body))
  | .function s body =>
    opening names depth σ (.function s body) ++
      (traceList (fun _ => true) names (depth + 1) σ 0 body ++ closing depth (.function s body))
  | node => opening names depth σ node

/-- The trace of those nodes of a list that are kept. They stand at the site
`π`, the first one in place `i`. -/
def traceList (keep : Node → Bool) (names : Names) (depth : Nat) (π : Site) (i : Nat) :
    List Node → Trace
  | [] => []
  | node :: rest =>
    (if keep node then traceNode names depth (π ++ [i]) node else []) ++
      traceList keep names depth π (i + 1) rest

end

variable (names : Names)

/-- A node is its line, its body, and the line that closes it. One equation
for all nodes, those without a body included, takes the place of the cases of
the definition. -/
theorem traceNode_eq (depth : Nat) (σ : Site) (node : Node) :
    traceNode names depth σ node = opening names depth σ node ++
      (traceList (fun _ => true) names (depth + 1) σ 0 node.body ++ closing depth node) := by
  cases node <;> rfl

theorem nodeLines_eq (depth : Nat) (σ : Site) (node : Node) :
    nodeLines names depth node = (opening names depth σ node).lines ++
      (bodyLines names (depth + 1) node.body ++ (closing depth node).lines) := by
  cases node with
  | giveBack value? => cases value? <;> rfl
  | _ => simp [opening, isWritten, lineText, nodeLines, bodyLines, Node.body, closing]

/-- The lines of a trace are the lines of the nodes that are kept. By
induction on the nodes and their bodies; inside of a node everything is
kept. -/
theorem lines_traceList (keep : Node → Bool) (depth : Nat) (π : Site) (i : Nat)
    (nodes : List Node) :
    (traceList keep names depth π i nodes).lines = bodyLines names depth (nodes.filter keep) := by
  induction nodes using Node.bodyInduction generalizing keep depth π i with
  | nil => rfl
  | cons node rest ihbody ihrest =>
    have hnode : (traceNode names depth (π ++ [i]) node).lines = nodeLines names depth node := by
      rw [traceNode_eq, Trace.lines_append, Trace.lines_append, ihbody, List.filter_true,
        ← nodeLines_eq]
    rw [traceList, Trace.lines_append, ihrest, List.filter_cons]
    split
    · rw [hnode, bodyLines]
    · rfl

/-! ## Sites of a trace -/

theorem sites_closing (depth : Nat) (node : Node) : (closing depth node).sites = [] := by
  cases node <;> rfl

theorem mem_closing {depth : Nat} {node : Node} {σ : Site} {line : Line} :
    (some σ, line) ∉ closing depth node := by
  cases node <;> simp [closing]

/-- **The lines of a trace that have a site** are the lines of the nodes.
Inside a node that is kept, they are one level deeper with every step of the
site. By induction on the nodes and their bodies. -/
theorem mem_traceList {keep : Node → Bool} {depth : Nat} {π : Site} {i : Nat} {nodes : List Node}
    {σ : Site} {line : Line} :
    (some σ, line) ∈ traceList keep names depth π i nodes ↔
      ∃ j ρ first node, σ = π ++ (i + j) :: ρ ∧ nodes[j]? = some first ∧ keep first = true ∧
        Node.at? nodes (j :: ρ) = some node ∧ isWritten node = true ∧
        line = ⟨depth + ρ.length, lineText names node⟩ := by
  induction nodes using Node.bodyInduction generalizing keep depth π i with
  | nil => simp [traceList]
  | cons node rest ihbody ihrest =>
    have hnode : (some σ, line) ∈ traceNode names depth (π ++ [i]) node ↔
        ∃ ρ inner, σ = π ++ i :: ρ ∧ Node.at? (node :: rest) (0 :: ρ) = some inner ∧
          isWritten inner = true ∧ line = ⟨depth + ρ.length, lineText names inner⟩ := by
      rw [traceNode_eq, List.mem_append, List.mem_append, or_iff_left mem_closing, ihbody]
      constructor
      · rintro (hopening | ⟨j, ρ, first, inner, rfl, -, -, hat, hwritten, rfl⟩)
        · unfold opening at hopening
          split at hopening
          · next hwritten =>
            obtain ⟨hσ, rfl⟩ := Prod.mk.inj (List.mem_singleton.mp hopening)
            exact ⟨[], node, Option.some.inj hσ, rfl, hwritten, rfl⟩
          · cases hopening
        · refine ⟨j :: ρ, inner, by simp, hat, hwritten, ?_⟩
          rw [List.length_cons, Nat.add_comm ρ.length, ← Nat.add_assoc]
      · rintro ⟨ρ, inner, rfl, hat, hwritten, rfl⟩
        cases ρ with
        | nil =>
          obtain rfl := Option.some.inj hat
          rw [opening, if_pos hwritten]
          exact .inl (List.mem_singleton.mpr rfl)
        | cons j ρ =>
          rw [Node.at?_inside] at hat
          obtain ⟨first, hfirst⟩ := Node.exists_first_of_at? hat
          refine .inr ⟨j, ρ, first, inner, by simp, hfirst, rfl, hat, hwritten, ?_⟩
          rw [List.length_cons, Nat.add_comm ρ.length, ← Nat.add_assoc]
    rw [traceList, List.mem_append, ihrest]
    constructor
    · rintro (hfirst | ⟨j, ρ, first, inner, rfl, hfirst, hkeep, hat, hline⟩)
      · split at hfirst
        · next hkeep =>
          obtain ⟨ρ, inner, rfl, hat, hline⟩ := hnode.mp hfirst
          exact ⟨0, ρ, node, inner, rfl, rfl, hkeep, hat, hline⟩
        · cases hfirst
      · refine ⟨j + 1, ρ, first, inner, ?_, hfirst, hkeep, Node.at?_later.trans hat, hline⟩
        rw [Nat.add_assoc, Nat.add_comm 1]
    · rintro ⟨j, ρ, first, inner, rfl, hfirst, hkeep, hat, hline⟩
      cases j with
      | zero =>
        obtain rfl := Option.some.inj hfirst
        rw [if_pos hkeep]
        exact .inl (hnode.mpr ⟨ρ, inner, rfl, hat, hline⟩)
      | succ j =>
        rw [Node.at?_later] at hat
        refine .inr ⟨j, ρ, first, inner, ?_, hfirst, hkeep, hat, hline⟩
        rw [Nat.add_assoc, Nat.add_comm 1]

/-- A node of a unit that is written has its line in the trace of those nodes
of the unit that are kept, if the outermost node around it is. -/
theorem mem_traceList_of_at? {keep : Node → Bool} (depth : Nat) {i : Nat} {ρ : Site}
    {nodes : List Node} {first node : Node} (hfirst : nodes[i]? = some first)
    (hkeep : keep first = true) (hat : Node.at? nodes (i :: ρ) = some node)
    (hwritten : isWritten node = true) :
    (some (i :: ρ), ⟨depth + ρ.length, lineText names node⟩) ∈
      traceList keep names depth [] 0 nodes :=
  (mem_traceList names).mpr ⟨i, ρ, first, node, by simp, hfirst, hkeep, hat, hwritten, rfl⟩

/-- The sites of a trace are those of the nodes that are written, each of them
once. -/
theorem mem_sites_traceList {keep : Node → Bool} {depth : Nat} {π : Site} {i : Nat}
    {nodes : List Node} {σ : Site} :
    σ ∈ (traceList keep names depth π i nodes).sites ↔
      ∃ j ρ first node, σ = π ++ (i + j) :: ρ ∧ nodes[j]? = some first ∧ keep first = true ∧
        Node.at? nodes (j :: ρ) = some node ∧ isWritten node = true := by
  rw [Trace.mem_sites]
  constructor
  · rintro ⟨line, hline⟩
    obtain ⟨j, ρ, first, node, hσ, hfirst, hkeep, hat, hwritten, -⟩ :=
      (mem_traceList names).mp hline
    exact ⟨j, ρ, first, node, hσ, hfirst, hkeep, hat, hwritten⟩
  · rintro ⟨j, ρ, first, node, hσ, hfirst, hkeep, hat, hwritten⟩
    exact ⟨_, (mem_traceList names).mpr ⟨j, ρ, first, node, hσ, hfirst, hkeep, hat, hwritten, rfl⟩⟩

/-- **The lines of a list of nodes are in the order of their sites.** A node
comes before its body, and its body before what follows the node; by induction
on the nodes and bodies. -/
theorem pairwise_sites_traceList (keep : Node → Bool) (depth : Nat) (π : Site) (i : Nat)
    (nodes : List Node) : (traceList keep names depth π i nodes).sites.Pairwise (· < ·) := by
  induction nodes using Node.bodyInduction generalizing keep depth π i with
  | nil => exact .nil
  | cons node rest ihbody ihrest =>
    have hnode : (traceNode names depth (π ++ [i]) node).sites.Pairwise (· < ·) := by
      rw [traceNode_eq, Trace.sites_append, Trace.sites_append, sites_closing, List.append_nil]
      unfold opening
      split
      · refine List.pairwise_cons.mpr ⟨fun σ hσ => ?_, ihbody _ _ _ _⟩
        -- what stands inside of the node has a longer site
        obtain ⟨j, ρ, -, -, rfl, -⟩ := (mem_sites_traceList names).mp hσ
        have hlt : π ++ [i] ++ [] < π ++ [i] ++ (0 + j) :: ρ :=
          List.append_left_lt (List.nil_lt_cons _ _)
        rwa [List.append_nil] at hlt
      · exact ihbody _ _ _ _
    rw [traceList, Trace.sites_append]
    refine List.pairwise_append.mpr ⟨?_, ihrest _ _ _ _, fun σ hσ τ hτ => ?_⟩
    · split
      · exact hnode
      · exact .nil
    -- what stands in the node has `i` in its site, and what follows a later place
    · have hnode : σ ∈ (traceList keep names depth π i [node]).sites := by
        rw [traceList, traceList, List.append_nil]
        exact hσ
      obtain ⟨j, ρ, first, -, rfl, hfirst, -⟩ := (mem_sites_traceList names).mp hnode
      obtain ⟨j', ρ', -, -, rfl, -⟩ := (mem_sites_traceList names).mp hτ
      have hj : j < 1 := (List.getElem?_eq_some_iff.mp hfirst).1
      exact List.append_left_lt (List.cons_lt_cons_iff.mpr (.inl (by omega)))

/-- **No site marks two lines** of the trace of a list, since they come in a
strict order. -/
theorem nodup_sites_traceList (keep : Node → Bool) (depth : Nat) (π : Site) (i : Nat)
    (nodes : List Node) : (traceList keep names depth π i nodes).sites.Nodup := by
  refine List.Pairwise.imp ?_ (pairwise_sites_traceList names keep depth π i nodes)
  rintro σ _ hlt rfl
  exact List.lt_irrefl σ hlt

/-! ## Programs -/

/-- The trace of the functions among the nodes of a unit, the first node in
place `i`. -/
def traceFunctions (names : Names) (i : Nat) : List Node → Trace
  | [] => []
  | node :: rest =>
    (if Node.isFunction node then traceNode names 0 [i] node ++ [(none, .blank)] else []) ++
      traceFunctions names (i + 1) rest

/-- The functions of a unit are written one after the other, with an empty
line after each. -/
theorem lines_traceFunctions (i : Nat) (nodes : List Node) :
    (traceFunctions names i nodes).lines = functionLines names ⟨nodes⟩ := by
  induction nodes generalizing i with
  | nil => rfl
  | cons node rest ih =>
    rw [traceFunctions, Trace.lines_append, ih]
    cases node with
    | function s body =>
      have hnode : (traceNode names 0 [i] (.function s body)).lines =
          nodeLines names 0 (.function s body) := by
        have hlist := lines_traceList names (fun _ => true) 0 [] i [.function s body]
        simpa [traceList, bodyLines] using hlist
      rw [if_pos (show Node.isFunction (.function s body) = true from rfl), Trace.lines_append,
        hnode]
      simp [functionLines, Program.functions, paragraph, nodeLines]
    | _ => rfl

/-- Empty lines apart, functions are traced like a list of which only they are
kept, so what is known of the traces of lists is known of them. -/
theorem sites_traceFunctions (i : Nat) (nodes : List Node) :
    (traceFunctions names i nodes).sites =
      (traceList Node.isFunction names 0 [] i nodes).sites := by
  induction nodes generalizing i with
  | nil => rfl
  | cons node rest ih =>
    rw [traceFunctions, traceList, Trace.sites_append, Trace.sites_append, ih]
    split
    · rw [Trace.sites_append, Trace.sites_cons_none, Trace.sites_nil, List.append_nil]
      rfl
    · rfl

theorem mem_traceFunctions {i : Nat} {nodes : List Node} {σ : Site} {line : Line} :
    (some σ, line) ∈ traceFunctions names i nodes ↔
      (some σ, line) ∈ traceList Node.isFunction names 0 [] i nodes := by
  induction nodes generalizing i with
  | nil => rfl
  | cons node rest ih =>
    rw [traceFunctions, traceList, List.mem_append, List.mem_append, ih]
    split
    · simp
    · rfl

theorem inNamespace_eq (space? : Option String) (ls : List Line) :
    inNamespace space? ls =
      (inNamespace space? []).take 2 ++ (ls ++ (inNamespace space? []).drop 2) := by
  cases space? with
  | none => simp [inNamespace]
  | some space => simp [inNamespace]

/-- The trace of what stands before the functions of a program. -/
def headTrace (p : Program) : Trace :=
  .plain (bannerLines .program ++ importLines p ++
    (inNamespace (Names.ofProgram p).space? []).take 2)

/-- The trace of `main`. -/
def mainTrace (names : Names) (nodes : List Node) : Trace :=
  (none, .flush "int main() \x7b") :: (traceList isStatement names 1 [] 0 nodes ++
    [(none, ⟨1, "return 0;"⟩), (none, .flush "\x7d")])

end MapleCompiler.Cpp

namespace MapleCompiler.Program

open Cpp

/-- **The trace of a program** with a `main`. -/
def trace (p : Program) : Trace :=
  headTrace p ++ (traceFunctions (Names.ofProgram p) 0 p.nodes ++
    (.plain ((inNamespace (Names.ofProgram p).space? []).drop 2) ++
      mainTrace (Names.ofProgram p) p.nodes))

variable (p : Program)

/-- **The lines of the trace are those of the program.** -/
theorem lines_trace : p.trace.lines = programLines .program p := by
  unfold trace headTrace mainTrace programLines
  dsimp only
  rw [inNamespace_eq (Names.ofProgram p).space? (_ ++ _)]
  simp [lines_traceFunctions, lines_traceList, mainLines, variableLines]

theorem sites_trace :
    p.trace.sites = (traceList Node.isFunction (Names.ofProgram p) 0 [] 0 p.nodes).sites ++
      (traceList isStatement (Names.ofProgram p) 1 [] 0 p.nodes).sites := by
  unfold trace headTrace mainTrace
  simp [sites_traceFunctions]

/-- **No site marks two lines** of a program. A node is written as a function
or as a statement of `main`, and never as both. -/
theorem nodup_sites_trace : p.trace.sites.Nodup := by
  rw [sites_trace]
  refine List.nodup_append.mpr ⟨nodup_sites_traceList .., nodup_sites_traceList .., ?_⟩
  -- a node of the unit is no function and statement at once
  rintro σ hσ _ hτ rfl
  obtain ⟨j, ρ, first, -, rfl, hfirst, hfunction, -⟩ := (mem_sites_traceList _).mp hσ
  obtain ⟨j', ρ', first', -, heq, hfirst', hstatement, -⟩ := (mem_sites_traceList _).mp hτ
  obtain rfl : j = j' := by
    have hj := (List.cons.inj heq).1
    omega
  obtain rfl := Option.some.inj (hfirst.symm.trans hfirst')
  cases first <;> first | cases hfunction; done | cases hstatement

theorem mem_trace {σ : Site} {line : Line} :
    (some σ, line) ∈ p.trace ↔
      (some σ, line) ∈ traceList Node.isFunction (Names.ofProgram p) 0 [] 0 p.nodes ∨
        (some σ, line) ∈ traceList isStatement (Names.ofProgram p) 1 [] 0 p.nodes := by
  unfold trace headTrace mainTrace
  simp [mem_traceFunctions]

/-- The outermost node around one that is written is a function or statement.
The nodes that are neither have no body that is written elsewhere. -/
theorem isFunction_or_isStatement {i : Nat} {ρ : Site} {node first : Node}
    (hat : Node.at? p.nodes (i :: ρ) = some node) (hnode : isWritten node = true)
    (hfirst : p.nodes[i]? = some first) :
    Node.isFunction first = true ∨ isStatement first = true := by
  cases ρ with
  | nil =>
    obtain rfl := Option.some.inj (hfirst.symm.trans hat)
    cases first <;> first | exact .inl rfl | exact .inr rfl | cases hnode
  | cons j ρ =>
    rw [Node.at?_cons_cons, hfirst, Option.bind_some] at hat
    cases first with
    | function s body => exact .inl rfl
    | useLibrary name span => exact absurd hat (by simp [Node.body])
    | openNamespace name => exact absurd hat (by simp [Node.body])
    | _ => exact .inr rfl

/-- **Every node that is written has its line**, at whatever depth it stands:
in a function if it is inside of one, and otherwise in `main`. -/
theorem exists_mem_trace {σ : Site} {node : Node} (hat : p.at? σ = some node)
    (hnode : isWritten node = true) :
    ∃ depth, (some σ, ⟨depth, lineText (Names.ofProgram p) node⟩) ∈ p.trace := by
  cases σ with
  | nil => cases hat
  | cons i ρ =>
    obtain ⟨first, hfirst⟩ := Node.exists_first_of_at? hat
    obtain hfunction | hstatement := p.isFunction_or_isStatement hat hnode hfirst
    · exact ⟨_, p.mem_trace.mpr (.inl (mem_traceList_of_at? _ 0 hfirst hfunction hat hnode))⟩
    · exact ⟨_, p.mem_trace.mpr (.inr (mem_traceList_of_at? _ 1 hfirst hstatement hat hnode))⟩

end MapleCompiler.Program
