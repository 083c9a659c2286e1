import Mathlib.Data.List.Basic
import MapleCompiler.Proofs.Acceptance.Judgement

/-!
# Sites in a program

A *site* is the way to a node: its place in the list it stands in, after the
places of the nodes around it. Sites are ordered as lists, so an earlier site
is one that comes earlier in the text; a node comes before its own body. The
block of a site is the site without its last place, that of the node around
it; the block of the whole unit is empty.

At every site some names are declared before (`Program.Declares`) and some are
bound by the loops and the function around it (`Program.boundAt`). A node *uses*
the operands that stand in its own line (`Node.uses`).
-/

namespace MapleCompiler

/-- **The way to a node** of a program. -/
abbrev Site : Type := List Nat

namespace Site

/-- **A site follows another one in its block**: it comes later, and it is in
the block of the other one or inside of it. -/
def Follows (δ σ : Site) : Prop := δ < σ ∧ δ.dropLast <+: σ

variable {i j k : Nat} {ρ τ : Site}

/-- What follows a node in a list is the rest of the list, and also what is
inside of the node: a body comes after the line of its node, in the same
block. -/
theorem follows_singleton : Follows [j] (i :: ρ) ↔ j < i ∨ j = i ∧ ρ ≠ [] := by
  have hnil : [] < ρ ↔ ρ ≠ [] := by cases ρ <;> simp
  unfold Follows
  rw [List.cons_lt_cons_iff, hnil]
  simp

/-- What follows a node of a body is in that body. -/
theorem follows_cons_cons : Follows (j :: k :: τ) (i :: ρ) ↔ j = i ∧ Follows (k :: τ) ρ := by
  unfold Follows
  rw [List.cons_lt_cons_iff, List.dropLast_cons_cons, List.cons_prefix_cons]
  constructor
  · rintro ⟨hlt | ⟨-, hlt⟩, rfl, hpre⟩
    · exact absurd hlt (Nat.lt_irrefl j)
    · exact ⟨rfl, hlt, hpre⟩
  · rintro ⟨rfl, hlt, hpre⟩
    exact ⟨.inr ⟨rfl, hlt⟩, rfl, hpre⟩

theorem follows_succ : Follows ((j + 1) :: τ) ((i + 1) :: ρ) ↔ Follows (j :: τ) (i :: ρ) := by
  cases τ with
  | nil => simp only [follows_singleton, Nat.add_lt_add_iff_right, Nat.add_right_cancel_iff]
  | cons k τ => simp only [follows_cons_cons, Nat.add_right_cancel_iff]

theorem not_follows_zero : ¬Follows ((j + 1) :: τ) (0 :: ρ) := by
  rintro ⟨hlt, -⟩
  simp [List.cons_lt_cons_iff] at hlt

end Site

/-! ## Nodes at sites -/

namespace Node

/-- The node at a site of some nodes. -/
def at? (nodes : List Node) : Site → Option Node
  | [] => none
  | [i] => nodes[i]?
  | i :: j :: σ =>
    match nodes[i]? with
    | some node => at? node.body (j :: σ)
    | none => none

variable {node : Node} {rest : List Node} {i j : Nat} {σ : Site}

@[simp] theorem at?_root (nodes : List Node) : at? nodes [] = none := rfl

@[simp] theorem at?_nil (σ : Site) : at? [] σ = none := by
  match σ with
  | [] => rfl
  | [_] => rfl
  | _ :: _ :: _ => rfl

@[simp] theorem at?_first : at? (node :: rest) [0] = some node := rfl

@[simp] theorem at?_inside : at? (node :: rest) (0 :: j :: σ) = at? node.body (j :: σ) := rfl

@[simp] theorem at?_later : at? (node :: rest) ((i + 1) :: σ) = at? rest (i :: σ) := by
  cases σ <;> rfl

/-- Nodes inside a node, whatever its place: one step into the list, and the
rest of the site in the body that is found there. -/
theorem at?_cons_cons (nodes : List Node) (i j : Nat) (σ : Site) :
    at? nodes (i :: j :: σ) = nodes[i]?.bind fun node => at? node.body (j :: σ) := by
  rw [at?]
  cases nodes[i]? with
  | none => rfl
  | some node => rfl

/-- A site begins with the place of a node of the list, the outermost one
around it. -/
theorem exists_first_of_at? {nodes : List Node} (h : at? nodes (i :: σ) = some node) :
    ∃ first, nodes[i]? = some first := by
  cases σ with
  | nil => exact ⟨node, h⟩
  | cons j σ =>
    rw [at?_cons_cons] at h
    obtain ⟨first, hfirst, -⟩ := Option.bind_eq_some_iff.mp h
    exact ⟨first, hfirst⟩

/-- **Induction on nested lists of nodes**: for a node before a list, what is
to be shown holds of its body and of the list. One goal for all statements
with a body and without one takes the place of a mutual induction on nodes and
lists. -/
theorem bodyInduction {motive : List Node → Prop} (nil : motive [])
    (cons : ∀ node rest, motive node.body → motive rest → motive (node :: rest)) :
    ∀ nodes, motive nodes
  | [] => nil
  | node :: rest => cons node rest (bodyInduction nil cons node.body) (bodyInduction nil cons rest)
termination_by nodes => sizeOf nodes
decreasing_by
  · cases node <;> simp [body] <;> omega
  · simp only [List.cons.sizeOf_spec]
    omega

/-! ## Names that nodes declare, bind and use -/

/-- The name that a node declares. -/
def declared? : Node → Option String
  | .declare v => some v.name
  | .function s _ => some s.name
  | _ => none

/-- The names that are bound in the body of a node. -/
def bound : Node → List String
  | .loop counter _ _ _ => [counter]
  | .function s _ => s.parameters.map Prod.fst
  | _ => []

/-- The names that are bound at a site of some nodes. -/
def boundAt (nodes : List Node) : Site → List String
  | i :: j :: σ =>
    match nodes[i]? with
    | some node => node.bound ++ boundAt node.body (j :: σ)
    | none => []
  | _ => []

/-- The operands of what a variable starts with. -/
def initializerUses : Initializer → List String
  | .value x => [x]
  | .call c => c.arguments
  | .array _ values => values

/-- The operands of what is assigned. A copied literal is written in place of
the element. -/
def assignedUses : AssignedValue → List String
  | .plain x => [x]
  | .copied _ _ literal => [literal]
  | .element array index => [array, index]

/-- **The operands that a node uses**, its body aside. -/
def uses : Node → List String
  | .run count _ => [count]
  | .declare v => initializerUses v.initializer
  | .assign a => a.target :: (a.index?.toList ++ assignedUses a.value)
  | .output name index? => name :: index?.toList
  | .ifThen c _ => [c.left, c.right]
  | .elseIf c _ => [c.left, c.right]
  | .loop _ start stop _ => [start, stop]
  | .save name => [name]
  | .restore name => [name]
  | .giveBack value? => value?.toList
  | .call c => c.arguments
  | .calculate c => c.left :: c.right :: c.destination?.toList
  | .qualifiedCall _ c => c.arguments
  | _ => []

/-- Whether a node is a function. -/
def isFunction : Node → Bool
  | .function _ _ => true
  | _ => false

/-! ## What nodes of nested lists yield -/

/-- **The node at a site yields something**: the name that it declares, the
symbol that it adds, the library that it imports. -/
def Yields {α : Type} (f : Node → Option α) (nodes : List Node) (δ : Site) (a : α) : Prop :=
  ∃ node, at? nodes δ = some node ∧ f node = some a

/-- A node before a site yields something. -/
def YieldsBefore {α : Type} (f : Node → Option α) (nodes : List Node) (σ : Site) (a : α) : Prop :=
  ∃ δ, δ < σ ∧ Yields f nodes δ a

/-- The node at a site declares a name. -/
def Declares (nodes : List Node) (δ : Site) (x : String) : Prop :=
  ∃ node, at? nodes δ = some node ∧ node.declared? = some x

/-- A name is declared before a site. -/
def DeclaredBefore (nodes : List Node) (σ : Site) (x : String) : Prop :=
  ∃ δ, δ < σ ∧ Declares nodes δ x

variable {α : Type} {f : Node → Option α} {a : α} {δ : Site}

theorem not_yields_nil : ¬Yields f [] δ a := by
  rintro ⟨_, hδ, -⟩
  rw [at?_nil] at hδ
  cases hδ

/-- What a list yields is yielded by its first node, by the body of that node
or by the rest of the list, and the site says which of them it is. -/
theorem yields_cons :
    Yields f (node :: rest) δ a ↔
      δ = [0] ∧ f node = some a ∨ (∃ j ρ, δ = 0 :: j :: ρ ∧ Yields f node.body (j :: ρ) a) ∨
        ∃ i ρ, δ = (i + 1) :: ρ ∧ Yields f rest (i :: ρ) a := by
  match δ with
  | [] => simp [Yields]
  | [0] => simp [Yields]
  | 0 :: j :: ρ => simp [Yields]
  | (i + 1) :: ρ => simp [Yields]

theorem Yields.exists_cons {nodes : List Node} (h : Yields f nodes δ a) : ∃ i ρ, δ = i :: ρ := by
  cases δ with
  | nil =>
    obtain ⟨_, hδ, -⟩ := h
    cases hδ
  | cons i ρ => exact ⟨i, ρ, rfl⟩

/-- Somewhere in a list something is yielded, if it is by its first node,
inside of that node or in the rest. -/
theorem exists_yields_cons :
    (∃ δ, Yields f (node :: rest) δ a) ↔
      f node = some a ∨ (∃ δ, Yields f node.body δ a) ∨ ∃ δ, Yields f rest δ a := by
  constructor
  · rintro ⟨δ, h⟩
    obtain ⟨-, h⟩ | ⟨j, ρ, -, h⟩ | ⟨i, ρ, -, h⟩ := yields_cons.mp h
    · exact .inl h
    · exact .inr (.inl ⟨_, h⟩)
    · exact .inr (.inr ⟨_, h⟩)
  · rintro (h | ⟨δ, h⟩ | ⟨δ, h⟩)
    · exact ⟨_, yields_cons.mpr (.inl ⟨rfl, h⟩)⟩
    · obtain ⟨j, ρ, rfl⟩ := h.exists_cons
      exact ⟨_, yields_cons.mpr (.inr (.inl ⟨j, ρ, rfl, h⟩))⟩
    · obtain ⟨i, ρ, rfl⟩ := h.exists_cons
      exact ⟨_, yields_cons.mpr (.inr (.inr ⟨i, ρ, rfl, h⟩))⟩

theorem not_yieldsBefore_first : ¬YieldsBefore f (node :: rest) [0] a := by
  rintro ⟨δ, hlt, h⟩
  obtain ⟨i, ρ, rfl⟩ := h.exists_cons
  simp [List.cons_lt_cons_iff] at hlt

/-- Before a site inside of a node stand the node itself and its body up to
there. What comes later in the body, or after the node, does not. -/
theorem yieldsBefore_inside :
    YieldsBefore f (node :: rest) (0 :: j :: σ) a ↔
      f node = some a ∨ YieldsBefore f node.body (j :: σ) a := by
  constructor
  · rintro ⟨δ, hlt, hδ⟩
    obtain ⟨-, h⟩ | ⟨j', ρ, rfl, h⟩ | ⟨i, ρ, rfl, -⟩ := yields_cons.mp hδ
    · exact .inl h
    · rw [List.cons_lt_cons_iff] at hlt
      exact .inr ⟨_, by simpa using hlt, h⟩
    · simp [List.cons_lt_cons_iff] at hlt
  · rintro (h | ⟨δ, hlt, h⟩)
    · exact ⟨[0], by simp, yields_cons.mpr (.inl ⟨rfl, h⟩)⟩
    · obtain ⟨j', ρ, rfl⟩ := h.exists_cons
      refine ⟨0 :: j' :: ρ, ?_, yields_cons.mpr (.inr (.inl ⟨j', ρ, rfl, h⟩))⟩
      exact List.cons_lt_cons_iff.mpr (.inr ⟨rfl, hlt⟩)

/-- Before a site after a node stand the node itself and all of its body, at
whatever depth: declarations are not taken back when a block ends. -/
theorem yieldsBefore_later :
    YieldsBefore f (node :: rest) ((i + 1) :: σ) a ↔
      f node = some a ∨ (∃ δ, Yields f node.body δ a) ∨ YieldsBefore f rest (i :: σ) a := by
  constructor
  · rintro ⟨δ, hlt, hδ⟩
    obtain ⟨-, h⟩ | ⟨j, ρ, -, h⟩ | ⟨i', ρ, rfl, h⟩ := yields_cons.mp hδ
    · exact .inl h
    · exact .inr (.inl ⟨_, h⟩)
    · rw [List.cons_lt_cons_iff] at hlt
      exact .inr (.inr ⟨_, List.cons_lt_cons_iff.mpr (by simpa using hlt), h⟩)
  · rintro (h | ⟨δ, h⟩ | ⟨δ, hlt, h⟩)
    · exact ⟨[0], List.cons_lt_cons_iff.mpr (.inl (Nat.succ_pos i)),
        yields_cons.mpr (.inl ⟨rfl, h⟩)⟩
    · obtain ⟨j, ρ, rfl⟩ := h.exists_cons
      exact ⟨0 :: j :: ρ, List.cons_lt_cons_iff.mpr (.inl (Nat.succ_pos i)),
        yields_cons.mpr (.inr (.inl ⟨j, ρ, rfl, h⟩))⟩
    · obtain ⟨i', ρ, rfl⟩ := h.exists_cons
      refine ⟨(i' + 1) :: ρ, ?_, yields_cons.mpr (.inr (.inr ⟨i', ρ, rfl, h⟩))⟩
      rw [List.cons_lt_cons_iff] at hlt ⊢
      simpa using hlt

end Node

namespace Program

variable (p : Program)

/-- The node at a site of a program. -/
def at? (σ : Site) : Option Node := Node.at? p.nodes σ

/-- The names that the loops and the function around a site bind. -/
def boundAt (σ : Site) : List String := Node.boundAt p.nodes σ

/-- **The node at a site declares a name.** -/
def Declares (δ : Site) (x : String) : Prop := Node.Declares p.nodes δ x

/-- **The node at a site uses a name** that is not bound there. -/
def Uses (σ : Site) (x : String) : Prop :=
  ∃ node, p.at? σ = some node ∧ x ∈ node.uses ∧ x ∉ p.boundAt σ

/-- **The node at a site calls** a function of its own unit, or one that the
unit does not know: by itself, or for the value of a variable. -/
def Calls (σ : Site) (c : Call) : Prop :=
  p.at? σ = some (.call c) ∨ ∃ v, p.at? σ = some (.declare v) ∧ v.initializer = .call c

/-- Whether a site is that of a function, or inside of one. -/
def inFunction : Site → Bool
  | i :: _ => p.nodes[i]?.any Node.isFunction
  | [] => false

/-- **The block of one site encloses another site.** Functions stand outside
of the block of the unit. -/
def Encloses (δ σ : Site) : Prop := δ.dropLast <+: σ ∧ (δ.length = 1 → p.inFunction σ = false)

instance (δ σ : Site) : Decidable (p.Encloses δ σ) := inferInstanceAs (Decidable (_ ∧ _))

end Program

end MapleCompiler
