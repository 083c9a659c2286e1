import Mathlib.Data.List.Nodup
import MapleCompiler.Proofs.Acceptance.Soundness
import MapleCompiler.Proofs.Scoping.Site

/-!
# What is known at a site

Reading a program builds up what is known: symbols and imported libraries,
which stay to the end of the unit, and bindings, which go with their block. In
an acceptable program none of this has to be computed by reading. What is known
at a site can be read off the program: the symbols and libraries are those that
nodes before the site yield (`Facts.Collects`), the bindings and the function are
those of the nodes around it (`KnownAt`).

What else holds of the known facts everywhere is proved once per property, as a
`Facts.Invariant`: nodes that have what they need preserve it. The first of them
is that **no name has two meanings** (`Scope.Unambiguous`). So the meaning that
the scope finds for a name is the meaning that the program gives to it
(`Program.Means`), and there is no other (`Program.Accepted.situation`). Both
kinds of facts are carried to a site along the same way, which is a relation of
its own (`Arrives`).
-/

namespace MapleCompiler

/-! ## Meanings in a scope -/

namespace Scope

variable (s : Scope)

/-- **What a name means in a scope**: a symbol of that name, or a binding of a
block, whichever block it is. -/
def Means (x : String) : Meaning → Prop
  | .declared symbol => symbol ∈ s.symbols ∧ symbol.name = x
  | .bound type => (x, type) ∈ s.blocks.flatten

/-- **No name has two meanings.** -/
def Unambiguous : Prop := ∀ x m m', s.Means x m → s.Means x m' → m = m'

variable {s} {x : String} {m : Meaning}

theorem means_of_resolve? (h : s.resolve? x = some m) : s.Means x m := by
  unfold resolve? at h
  split at h
  · next type hbinding =>
    obtain rfl := Option.some.inj h
    obtain ⟨block, hblock, hlookup⟩ := List.exists_of_findSome?_eq_some hbinding
    obtain ⟨before, after, rfl, -⟩ := List.lookup_eq_some_iff.mp hlookup
    exact List.mem_flatten.mpr ⟨_, hblock, by simp⟩
  · obtain ⟨symbol, hlookup, rfl⟩ := Option.map_eq_some_iff.mp h
    exact ⟨List.mem_of_find?_eq_some hlookup, s.name_of_lookup? hlookup⟩

/-- **A name is defined if it has a meaning.** The search of the scope finds
one of them, and if there is any it finds something. -/
theorem isDefined_iff : s.isDefined x = true ↔ ∃ m, s.Means x m := by
  constructor
  · intro h
    obtain ⟨m, hm⟩ := Option.isSome_iff_exists.mp h
    exact ⟨m, means_of_resolve? hm⟩
  · rintro ⟨m, hm⟩
    unfold isDefined resolve?
    cases m with
    | bound type =>
      have hbinding : (s.binding? x).isSome = true := by
        obtain ⟨block, hblock, hmem⟩ := List.mem_flatten.mp hm
        refine List.findSome?_isSome_iff.mpr ⟨block, hblock, ?_⟩
        rw [Option.isSome_iff_ne_none, ne_eq, List.lookup_eq_none_iff]
        exact fun h => by simpa using h _ hmem
      obtain ⟨type', htype⟩ := Option.isSome_iff_exists.mp hbinding
      rw [htype]
      rfl
    | declared symbol =>
      have hlookup : (s.lookup? x).isSome = true :=
        List.find?_isSome.mpr ⟨symbol, hm.1, beq_iff_eq.mpr hm.2⟩
      split
      · rfl
      · rw [Option.isSome_map, hlookup]

theorem not_means_of_new (h : s.isDefined x = false) : ¬s.Means x m := by
  intro hm
  rw [isDefined_iff.mpr ⟨m, hm⟩] at h
  cases h

/-- In a scope without ambiguities a name resolves to what it means. Otherwise
it would resolve to one of its meanings, and the order of the search would say
to which. -/
theorem Unambiguous.resolve?_iff (h : s.Unambiguous) : s.resolve? x = some m ↔ s.Means x m := by
  refine ⟨means_of_resolve?, fun hm => ?_⟩
  obtain ⟨m', hm'⟩ := Option.isSome_iff_exists.mp (isDefined_iff.mpr ⟨m, hm⟩)
  rw [hm', h x m' m (means_of_resolve? hm') hm]

theorem lookup?_of_resolve? {symbol : Symbol} (h : s.resolve? x = some (.declared symbol)) :
    s.lookup? x = some symbol := by
  unfold resolve? at h
  split at h
  · cases h
  · obtain ⟨symbol', hlookup, heq⟩ := Option.map_eq_some_iff.mp h
    cases heq
    exact hlookup

/-- In a scope without ambiguities a declaration is found under every name
that means it: no binding is in the way. -/
theorem Unambiguous.lookup?_iff (h : s.Unambiguous) {symbol : Symbol} :
    s.lookup? x = some symbol ↔ s.resolve? x = some (.declared symbol) := by
  refine ⟨fun hlookup => ?_, lookup?_of_resolve?⟩
  rw [h.resolve?_iff]
  exact ⟨List.mem_of_find?_eq_some hlookup, s.name_of_lookup? hlookup⟩

/-- A new name may be declared without an ambiguity. -/
theorem Unambiguous.declared (h : s.Unambiguous) {symbol : Symbol}
    (hnew : s.isDefined symbol.name = false) : (s.declared symbol).Unambiguous := by
  have hmeans {x : String} {m : Meaning} (hm : (s.declared symbol).Means x m) :
      s.Means x m ∨ x = symbol.name ∧ m = .declared symbol := by
    cases m with
    | bound type => exact .inl hm
    | declared symbol' =>
      obtain ⟨hmem, rfl⟩ := hm
      obtain hmem | hmem := List.mem_append.mp hmem
      · exact .inl ⟨hmem, rfl⟩
      · rw [List.mem_singleton.mp hmem]
        exact .inr ⟨rfl, rfl⟩
  intro x m m' hm hm'
  obtain hm | ⟨rfl, rfl⟩ := hmeans hm
  · obtain hm' | ⟨rfl, -⟩ := hmeans hm'
    · exact h x m m' hm hm'
    · exact absurd hm (not_means_of_new hnew)
  · obtain hm' | ⟨-, rfl⟩ := hmeans hm'
    · exact absurd hm' (not_means_of_new hnew)
    · rfl

/-- New names may be bound in a block, if they are all different. The
parameters of a function are bound at once, so they have to be compared with
each other too. -/
theorem Unambiguous.inBlock (h : s.Unambiguous) {bindings : List (String × ValueType)}
    (hnew : ∀ b ∈ bindings, s.isDefined b.1 = false) (hnodup : (bindings.map Prod.fst).Nodup) :
    (s.inBlock bindings).Unambiguous := by
  have hmeans {x : String} {m : Meaning} (hm : (s.inBlock bindings).Means x m) :
      s.Means x m ∨ ∃ type, (x, type) ∈ bindings ∧ m = .bound type := by
    cases m with
    | declared symbol => exact .inl hm
    | bound type =>
      obtain hmem | hmem := List.mem_append.mp hm
      · exact .inr ⟨type, hmem, rfl⟩
      · exact .inl hmem
  intro x m m' hm hm'
  obtain hm | ⟨type, hmem, rfl⟩ := hmeans hm
  · obtain hm' | ⟨type', hmem', rfl⟩ := hmeans hm'
    · exact h x m m' hm hm'
    · exact absurd hm (not_means_of_new (hnew _ hmem'))
  · obtain hm' | ⟨type', hmem', rfl⟩ := hmeans hm'
    · exact absurd hm' (not_means_of_new (hnew _ hmem))
    · have hpair := List.inj_on_of_nodup_map hnodup hmem hmem' rfl
      rw [(Prod.mk.inj hpair).2]

/-- Leaving a block brings no new meanings, so no ambiguity can come of it. -/
theorem Unambiguous.closeBlock (h : s.Unambiguous) : s.closeBlock.Unambiguous := by
  have hmeans {x : String} {m : Meaning} (hm : s.closeBlock.Means x m) : s.Means x m := by
    cases m with
    | declared symbol => exact hm
    | bound type =>
      obtain ⟨block, hblock, hmem⟩ := List.mem_flatten.mp hm
      exact List.mem_flatten.mpr ⟨block, List.mem_of_mem_tail hblock, hmem⟩
  exact fun x m m' hm hm' => h x m m' (hmeans hm) (hmeans hm')

end Scope

/-! ## What nodes add -/

namespace Node

/-- The symbol that a node adds. -/
def symbol? : Node → Option Symbol
  | .declare v => some v.symbol
  | .function s _ => some s.symbol
  | _ => none

/-- The library that a node imports. -/
def imported? : Node → Option String
  | .useLibrary name _ => some name
  | _ => none

/-- The names that are bound in the body of a node, with their types. -/
def bindings : Node → List (String × ValueType)
  | .loop counter _ _ _ => [(counter, .i32)]
  | .function s _ => s.parameters
  | _ => []

/-- The head of a function. -/
def signature? : Node → Option Signature
  | .function s _ => some s
  | _ => none

/-- The names that are bound at a site of some nodes, with their types. -/
def bindingsAt (nodes : List Node) : Site → List (String × ValueType)
  | i :: j :: σ =>
    match nodes[i]? with
    | some node => node.bindings ++ bindingsAt node.body (j :: σ)
    | none => []
  | _ => []

/-- The innermost function around a site of some nodes. -/
def functionAt (nodes : List Node) : Site → Option Signature
  | i :: j :: σ =>
    match nodes[i]? with
    | some node => (functionAt node.body (j :: σ)).or node.signature?
    | none => none
  | _ => none

variable {node : Node} {rest : List Node} {i j : Nat} {σ : Site}

@[simp] theorem bindingsAt_later :
    bindingsAt (node :: rest) ((i + 1) :: σ) = bindingsAt rest (i :: σ) := by
  cases σ <;> rfl

@[simp] theorem functionAt_later :
    functionAt (node :: rest) ((i + 1) :: σ) = functionAt rest (i :: σ) := by
  cases σ <;> rfl

/-- A node declares the name of the symbol that it adds, and no node declares
a name without a symbol. -/
theorem declared?_eq (node : Node) : node.declared? = node.symbol?.map Symbol.name := by
  cases node <;> rfl

theorem bound_eq (node : Node) : node.bound = node.bindings.map Prod.fst := by
  cases node <;> rfl

theorem boundAt_eq (nodes : List Node) (σ : Site) :
    boundAt nodes σ = (bindingsAt nodes σ).map Prod.fst := by
  match σ with
  | [] => rfl
  | [_] => rfl
  | i :: j :: σ =>
    unfold boundAt bindingsAt
    cases nodes[i]? with
    | none => rfl
    | some node =>
      dsimp only
      rw [List.map_append, bound_eq, boundAt_eq node.body (j :: σ)]

end Node

namespace Facts

/-- **What nodes add to what is known.** The list `c` of the known facts keeps
what it has, and every node adds what `f` gives for it. -/
structure Collects {α : Type} (c : Facts → List α) (f : Node → Option α) : Prop where
  enter : ∀ F node a, a ∈ c (F.enter node) ↔ a ∈ c F ∨ f node = some a
  leave : ∀ F node, c (F.leave node) = c F

theorem collects_symbols : Collects (·.scope.symbols) Node.symbol? where
  enter F node symbol := by
    cases node with
    | declare v => simp [Facts.enter, Scope.declared, Node.symbol?, eq_comm]
    | function s body => simp [Facts.enter, Scope.declared, Scope.inBlock, Node.symbol?, eq_comm]
    | restore name => simp only [Facts.enter]; split <;> simp [Node.symbol?]
    | _ => simp [Facts.enter, Scope.inBlock, Scope.recordBackup, Node.symbol?]
  leave F node := by cases node <;> rfl

theorem collects_imports : Collects Facts.imports Node.imported? where
  enter F node name := by
    cases node with
    | useLibrary library span => simp [Facts.enter, Node.imported?, or_comm, eq_comm]
    | restore name => simp only [Facts.enter]; split <;> simp [Node.imported?]
    | _ => simp [Facts.enter, Node.imported?]
  leave F node := by cases node <;> rfl

variable {F G : Facts} {node : Node}

/-- A node binds its counter or parameters in its body, beside what is bound
around it. -/
theorem bindings_enter (b : String × ValueType) :
    b ∈ (F.enter node).scope.blocks.flatten ↔
      b ∈ node.bindings ∨ b ∈ F.scope.blocks.flatten := by
  cases node with
  | function s body => simp [enter, Scope.declared, Scope.inBlock, Node.bindings]
  | restore name => simp only [enter]; split <;> simp [Node.bindings]
  | _ => simp [enter, Scope.declared, Scope.inBlock, Scope.recordBackup, Node.bindings]

/-- After a node its bindings are gone: the innermost block is closed, which
is the one that was opened for the node. -/
theorem blocks_leave (h : G.scope.blocks = (F.enter node).scope.blocks) :
    (G.leave node).scope.blocks = F.scope.blocks := by
  cases node with
  | loop counter start stop body => exact congrArg List.tail h
  | function s body => exact congrArg List.tail h
  | restore name =>
    refine h.trans ?_
    unfold enter
    dsimp only
    split <;> rfl
  | _ => exact h

/-- **A property of the known facts that acceptable nodes preserve.** Only
nodes that have what they need are looked at. Leaving a node must preserve it
on its own. -/
structure Invariant (V : Vocabulary) (Holds : Facts → Prop) : Prop where
  enter : ∀ {ctx F} {node : Node}, node.Checked V ctx F → Holds F → Holds (F.enter node)
  leave : ∀ {F} {node : Node}, Holds F → Holds (F.leave node)

theorem invariant_true (V : Vocabulary) : Invariant V fun _ => True where
  enter _ _ := trivial
  leave _ := trivial

/-- **No name gets a second meaning.** Entering a node gives meanings to new
names only, which is part of what the node needs; leaving it takes meanings
away. -/
theorem invariant_unambiguous (V : Vocabulary) : Invariant V (·.scope.Unambiguous) where
  enter {ctx F node} hnode h := by
    cases node with
    | declare v =>
      obtain ⟨-, -, -, hnew, -⟩ := hnode
      exact h.declared hnew
    | loop counter start stop body =>
      obtain ⟨-, hnew, -⟩ := hnode
      refine h.inBlock (fun b hb => ?_) (List.nodup_singleton counter)
      rw [List.mem_singleton.mp hb]
      exact hnew
    | function s body =>
      obtain ⟨-, -, -, hnew, hparameters, hnodup⟩ := hnode
      refine (h.declared hnew).inBlock (fun b hb => ?_) ?_
      · exact (hparameters b (List.mem_reverse.mp hb)).2.2.2
      · rw [List.map_reverse]
        exact List.nodup_reverse.mpr hnodup
    | restore name =>
      simp only [Facts.enter]
      split
      · exact h
      · exact h
    | _ => exact h
  leave {F node} h := by
    cases node with
    | loop counter start stop body => exact h.closeBlock
    | function s body => exact h.closeBlock
    | _ => exact h

end Facts

/-! ## What is known at a site of some nodes -/

/-- The function in whose body a node stands, seen from inside of the node:
the node itself, if it is a function, and otherwise the one from before. -/
theorem Context.function?_enter (ctx : Context) (node : Node) :
    (ctx.enter node).function? = node.signature?.or ctx.function? := by
  cases node <;> rfl

theorem Context.depth_enter (ctx : Context) (node : Node) :
    (ctx.enter node).depth = ctx.depth + 1 := by
  cases node <;> rfl

/-- **What is known at a site** of some nodes, when `F` is known before them:
all that is yielded up to the site, the bindings and the function around it,
and how many nodes are around it. -/
structure KnownAt (ctx : Context) (F : Facts) (nodes : List Node) (σ : Site) (ctx₁ : Context)
    (F₁ : Facts) : Prop where
  collected : ∀ {α : Type} {c : Facts → List α} {f : Node → Option α}, Facts.Collects c f →
    ∀ a, a ∈ c F₁ ↔ a ∈ c F ∨ Node.YieldsBefore f nodes σ a
  bindings : ∀ b, b ∈ F₁.scope.blocks.flatten ↔
    b ∈ Node.bindingsAt nodes σ ∨ b ∈ F.scope.blocks.flatten
  function? : ctx₁.function? = (Node.functionAt nodes σ).or ctx.function?
  depth : ctx₁.depth + 1 = ctx.depth + σ.length

namespace Accepts

open Node

variable {V : Vocabulary} {ctx : Context} {part part' : Part} {F F' : Facts} {nodes : List Node}

/-- The bindings after a list are those from before: every node closes the
block that it opens. -/
theorem blocks_eq (h : Accepts V ctx part F nodes part' F') :
    F'.scope.blocks = F.scope.blocks := by
  induction h with
  | nil => rfl
  | cons _ _ _ _ _ ihbody ihrest => exact ihrest.trans (Facts.blocks_leave ihbody)

/-- **What is collected after a list**: what its nodes yield, at whatever
depth. By induction on the judgement; what is collected in a body stays when
the body is left. -/
theorem collected {α : Type} {c : Facts → List α} {f : Node → Option α}
    (hc : Facts.Collects c f) (h : Accepts V ctx part F nodes part' F') (a : α) :
    a ∈ c F' ↔ a ∈ c F ∨ ∃ δ, Yields f nodes δ a := by
  induction h with
  | nil =>
    refine ⟨.inl, ?_⟩
    rintro (ha | ⟨δ, hδ⟩)
    · exact ha
    · exact absurd hδ not_yields_nil
  | cons _ _ _ _ _ ihbody ihrest =>
    rw [ihrest, hc.leave, ihbody, hc.enter, exists_yields_cons]
    simp only [or_assoc]

/-- An invariant holds after a list, if it held before. By induction on the
judgement. -/
theorem invariant {Holds : Facts → Prop} (hinv : Facts.Invariant V Holds)
    (h : Accepts V ctx part F nodes part' F') (hF : Holds F) : Holds F' := by
  induction h with
  | nil => exact hF
  | cons _ hnode _ _ _ ihbody ihrest => exact ihrest (hinv.leave (ihbody (hinv.enter hnode hF)))

/-- An invariant holds after a node with its body: the node is entered, its
body is gone through, and the node is left. -/
theorem invariant_node {Holds : Facts → Prop} (hinv : Facts.Invariant V Holds) {node : Node}
    {inside : Part} {G : Facts} (hnode : node.Checked V ctx F)
    (hbody : Accepts V (ctx.enter node) .list (F.enter node) node.body inside G) (hF : Holds F) :
    Holds (G.leave node) :=
  hinv.leave (hbody.invariant hinv (hinv.enter hnode hF))

end Accepts

/-! ## The way to a site -/

/-- **The way of the judgement to a site**: through the nodes before it, each
with its body, and into the nodes around it. The site is reached in the
context `ctx₁`, with what is known there. -/
inductive Arrives (V : Vocabulary) :
    Context → Facts → List Node → Site → Context → Facts → Prop
  | here {ctx : Context} {F : Facts} {node : Node} {rest : List Node} :
      Arrives V ctx F (node :: rest) [0] ctx F
  | inside {ctx ctx₁ : Context} {F F₁ : Facts} {node : Node} {rest : List Node} {j : Nat}
      {σ : Site} (hnode : node.Checked V ctx F)
      (h : Arrives V (ctx.enter node) (F.enter node) node.body (j :: σ) ctx₁ F₁) :
      Arrives V ctx F (node :: rest) (0 :: j :: σ) ctx₁ F₁
  | later {ctx ctx₁ : Context} {inside : Part} {F F₁ G : Facts} {node : Node} {rest : List Node}
      {i : Nat} {σ : Site} (hnode : node.Checked V ctx F)
      (hbody : Accepts V (ctx.enter node) .list (F.enter node) node.body inside G)
      (h : Arrives V ctx (G.leave node) rest (i :: σ) ctx₁ F₁) :
      Arrives V ctx F (node :: rest) ((i + 1) :: σ) ctx₁ F₁

/-- **The node at a site has what it needs** where the judgement arrives. -/
theorem Accepts.arrives {V : Vocabulary} {ctx : Context} {part part' : Part} {F F' : Facts}
    {nodes : List Node} (h : Accepts V ctx part F nodes part' F') {σ : Site} {node : Node}
    (hσ : Node.at? nodes σ = some node) :
    ∃ ctx₁ F₁, Arrives V ctx F nodes σ ctx₁ F₁ ∧ node.Checked V ctx₁ F₁ := by
  induction h generalizing σ with
  | nil =>
    rw [Node.at?_nil] at hσ
    cases hσ
  | cons _ hnode hbody _ _ ihbody ihrest =>
    -- the site is that of the first node, inside of it, or after it
    match σ, hσ with
    | [0], hσ =>
      obtain rfl := Option.some.inj hσ
      exact ⟨_, _, .here, hnode⟩
    | 0 :: j :: σ, hσ =>
      obtain ⟨ctx₁, F₁, harrives, hchecked⟩ := ihbody hσ
      exact ⟨ctx₁, F₁, .inside hnode harrives, hchecked⟩
    | (i + 1) :: σ, hσ =>
      rw [Node.at?_later] at hσ
      obtain ⟨ctx₁, F₁, harrives, hchecked⟩ := ihrest hσ
      exact ⟨ctx₁, F₁, .later hnode hbody harrives, hchecked⟩

namespace Arrives

open Node

variable {V : Vocabulary} {ctx ctx₁ : Context} {F F₁ : Facts} {nodes : List Node} {σ : Site}

/-- **What is known at the end of the way** can be read off the nodes. By
induction on the way: each step adds what its node yields, and only steps into
a body keep the bindings. -/
theorem knownAt (h : Arrives V ctx F nodes σ ctx₁ F₁) : KnownAt ctx F nodes σ ctx₁ F₁ := by
  induction h with
  | here =>
    refine ⟨fun _ a => ?_, fun b => ?_, rfl, rfl⟩
    · rw [or_iff_left not_yieldsBefore_first]
    · simp [bindingsAt]
  | @inside ctx ctx₁ F F₁ first rest j σ _ _ ih =>
    refine ⟨fun hc a => ?_, fun b => ?_, ?_, ?_⟩
    · rw [ih.collected hc, hc.enter, yieldsBefore_inside, or_assoc]
    · rw [ih.bindings, Facts.bindings_enter]
      show _ ↔ b ∈ first.bindings ++ bindingsAt first.body (j :: σ) ∨ _
      rw [List.mem_append, or_left_comm, or_assoc]
    · rw [ih.function?, Context.function?_enter, ← Option.or_assoc]
      rfl
    · rw [ih.depth, Context.depth_enter, List.length_cons, List.length_cons, List.length_cons]
      omega
  | later _ hbody _ ih =>
    refine ⟨fun hc a => ?_, fun b => ?_, ?_, ih.depth⟩
    · rw [ih.collected hc, hc.leave, hbody.collected hc, hc.enter, yieldsBefore_later]
      simp only [or_assoc]
    · rw [ih.bindings, bindingsAt_later, Facts.blocks_leave hbody.blocks_eq]
    · rw [ih.function?, functionAt_later]

theorem invariant {Holds : Facts → Prop} (hinv : Facts.Invariant V Holds)
    (h : Arrives V ctx F nodes σ ctx₁ F₁) (hF : Holds F) : Holds F₁ := by
  induction h with
  | here => exact hF
  | inside hnode _ ih => exact ih (hinv.enter hnode hF)
  | later hnode hbody _ ih => exact ih (Accepts.invariant_node hinv hnode hbody hF)

end Arrives

/-! ## What is known at a site of a program -/

namespace Program

variable (p : Program)

/-- The names that the loops and the function around a site bind, with their
types. -/
def bindingsAt (σ : Site) : List (String × ValueType) := Node.bindingsAt p.nodes σ

/-- **The function around a site.** -/
def functionAt (σ : Site) : Option Signature := Node.functionAt p.nodes σ

/-- **What a name means at a site**: the symbol of that name that a node
before the site adds, at whatever depth, or the binding of that name by a node
around the site. -/
def Means (σ : Site) (x : String) : Meaning → Prop
  | .declared symbol => Node.YieldsBefore Node.symbol? p.nodes σ symbol ∧ symbol.name = x
  | .bound type => (x, type) ∈ p.bindingsAt σ

variable {p} {σ : Site} {x : String}

/-- What has a meaning is bound around the site, or declared before it. -/
theorem Means.bound_or_declared {m : Meaning} (h : p.Means σ x m) :
    x ∈ p.boundAt σ ∨ ∃ δ, δ < σ ∧ p.Declares δ x := by
  cases m with
  | bound type =>
    left
    rw [boundAt, Node.boundAt_eq]
    exact List.mem_map.mpr ⟨_, h, rfl⟩
  | declared symbol =>
    obtain ⟨⟨δ, hlt, node, hδ, hsymbol⟩, rfl⟩ := h
    exact .inr ⟨δ, hlt, node, hδ, by rw [Node.declared?_eq, hsymbol]; rfl⟩

theorem means_of_declared (h : ∃ δ, δ < σ ∧ p.Declares δ x) :
    ∃ symbol, p.Means σ x (.declared symbol) := by
  obtain ⟨δ, hlt, node, hδ, hname⟩ := h
  rw [Node.declared?_eq] at hname
  obtain ⟨symbol, hsymbol, rfl⟩ := Option.map_eq_some_iff.mp hname
  exact ⟨symbol, ⟨δ, hlt, node, hδ, hsymbol⟩, rfl⟩

variable (p) in
/-- The facts `F` are those of a site: names resolve to what they mean there,
the known libraries are those that are imported before, and the context has
the function and the depth of the site. -/
structure Situation (σ : Site) (ctx : Context) (F : Facts) : Prop where
  resolve?_iff : ∀ x m, F.scope.resolve? x = some m ↔ p.Means σ x m
  imports_iff : ∀ name, name ∈ F.imports ↔ Node.YieldsBefore Node.imported? p.nodes σ name
  function?_eq : ctx.function? = p.functionAt σ
  depth_eq : ctx.depth + 1 = σ.length

variable {V : Vocabulary} {d : Dialect} {library : Bool} {warnings : List (String × String)}

theorem Situation.isDefined_iff {ctx : Context} {F : Facts} (h : p.Situation σ ctx F) :
    F.scope.isDefined x = true ↔ ∃ m, p.Means σ x m := by
  simp only [← h.resolve?_iff]
  exact Option.isSome_iff_exists

theorem Situation.lookup?_iff {ctx : Context} {F : Facts} (h : p.Situation σ ctx F)
    (hone : F.scope.Unambiguous) {symbol : Symbol} :
    F.scope.lookup? x = some symbol ↔ p.Means σ x (.declared symbol) :=
  hone.lookup?_iff.trans (h.resolve?_iff x _)

/-- **A name has one meaning at a site**, whether it is declared before it or
bound around it. -/
theorem Situation.means_unique {ctx : Context} {F : Facts} (h : p.Situation σ ctx F)
    {m m' : Meaning} (hm : p.Means σ x m) (hm' : p.Means σ x m') : m = m' :=
  Option.some.inj (((h.resolve?_iff x m).mpr hm).symm.trans ((h.resolve?_iff x m').mpr hm'))

theorem unambiguous_initial : Facts.initial.scope.Unambiguous := by
  intro x m m' hm
  cases m with
  | declared symbol => cases hm.1
  | bound type => cases hm

/-- **On the way from the beginning of a unit**, names mean what the program
says: nothing is known there, so all that is known at the site comes from the
program. -/
theorem situation_of_arrives {ctx : Context} {F : Facts}
    (h : Arrives V ⟨d, 0, none⟩ .initial p.nodes σ ctx F) : p.Situation σ ctx F := by
  have hone := h.invariant (Facts.invariant_unambiguous V) unambiguous_initial
  have hknown := h.knownAt
  refine ⟨fun x m => ?_, fun name => ?_, ?_, ?_⟩
  · rw [hone.resolve?_iff]
    cases m with
    | declared symbol =>
      refine and_congr_left fun _ => ?_
      rw [hknown.collected Facts.collects_symbols]
      exact or_iff_right (List.not_mem_nil)
    | bound type =>
      exact (hknown.bindings _).trans (or_iff_left List.not_mem_nil)
  · rw [hknown.collected Facts.collects_imports]
    exact or_iff_right (List.not_mem_nil)
  · rw [hknown.function?]
    exact Option.or_none
  · rw [hknown.depth]
    exact Nat.zero_add σ.length

/-- **Every node of an acceptable program has what it needs**, where names
mean what the program says. Any invariant that holds at the beginning of the
unit holds there too. -/
theorem Accepted.situation {Holds : Facts → Prop} (hinv : Facts.Invariant V Holds)
    (hinitial : Holds .initial) (h : p.Accepted V d library warnings) {node : Node}
    (hσ : p.at? σ = some node) :
    ∃ ctx F, node.Checked V ctx F ∧ Holds F ∧ p.Situation σ ctx F := by
  obtain ⟨-, part, F', -, -, haccepts⟩ := h
  obtain ⟨ctx, F, harrives, hchecked⟩ := haccepts.arrives hσ
  exact ⟨ctx, F, hchecked, harrives.invariant hinv hinitial, situation_of_arrives harrives⟩

end Program

end MapleCompiler
