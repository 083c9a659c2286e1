import MapleCompiler.Program.Equality
import MapleCompiler.Proofs.Scoping.Resolution

/-!
# No name hides another one

A name gets its meaning in one of two ways: a node *declares* it, for the rest of the
unit, or a loop or function *binds* it, for its own body. Declarations live on after the
block they stand in while bindings go with theirs, so it is not the nesting of blocks that
keeps names apart, but where they stand in the text.

Whichever way a node introduces a name, the name has no meaning where the node stands
(`Node.Checked.introduced_new`). What has a meaning there can be read off the program: what
is declared before, and what the nodes around bind. So no name is declared twice, and what
a node binds is neither declared before nor anything that the nodes around it bind. Seen
from the other end, it is neither declared nor bound again inside of the body.

Main statement: `Program.ofTokens_noShadowing`. Nothing is said about names of blocks that
are over: they may be used again.
-/

namespace MapleCompiler

namespace Node

/-- A node declares a name, or binds it in its body. -/
def Introduces (node : Node) (x : String) : Prop := node.declared? = some x ∨ x ∈ node.bound

variable {V : Vocabulary} {ctx : Context} {F : Facts} {node : Node} {x : String}

/-- A parameter has no meaning before its function, and is not the name of the
function, which is declared before the parameters are bound. -/
theorem ParametersChecked.fresh {s : Signature}
    (h : ParametersChecked V (F.scope.declared s.symbol) s.parameters)
    (hx : x ∈ s.parameters.map Prod.fst) : F.scope.isDefined x = false ∧ s.name ≠ x := by
  obtain ⟨parameter, hmem, rfl⟩ := List.mem_map.mp hx
  have hnew := (h.1 parameter hmem).2.2.2
  constructor
  · rw [← Bool.not_eq_true, Scope.isDefined_iff]
    rintro ⟨m, hm⟩
    refine Scope.not_means_of_new hnew (m := m) ?_
    cases m with
    | bound type => exact hm
    | declared symbol => exact ⟨List.mem_append_left _ hm.1, hm.2⟩
  · intro hname
    refine Scope.not_means_of_new hnew (m := .declared s.symbol) ⟨?_, hname⟩
    exact List.mem_append_right _ (List.mem_singleton_self _)

/-- **A name that a node introduces has no meaning where the node stands.** By
cases on the node: variables, functions, counters and parameters are all asked
for. -/
theorem Checked.introduced_new (h : node.Checked V ctx F) (hx : node.Introduces x) :
    F.scope.isDefined x = false := by
  obtain hdeclared | hbound := hx
  · exact h.declared_new hdeclared
  cases node with
  | loop counter start stop body =>
    obtain ⟨-, hnew, -⟩ := h
    rw [List.mem_singleton.mp hbound]
    exact hnew
  | function s body =>
    obtain ⟨-, -, -, -, hparameters⟩ := h
    exact (hparameters.fresh hbound).1
  | _ => cases hbound

/-- A node does not bind the name that it declares: a function has no
parameter of its own name. -/
theorem Checked.not_declared_of_bound (h : node.Checked V ctx F) (hx : x ∈ node.bound) :
    node.declared? ≠ some x := by
  cases node with
  | loop counter start stop body => exact nofun
  | function s body =>
    obtain ⟨-, -, -, -, hparameters⟩ := h
    exact fun hname => (hparameters.fresh hx).2 (Option.some.inj hname)
  | _ => cases hx

/-- What a node binds are different names, so no parameter hides another
one. -/
theorem Checked.bound_nodup (h : node.Checked V ctx F) : node.bound.Nodup := by
  cases node with
  | loop counter start stop body => exact List.nodup_singleton counter
  | function s body =>
    obtain ⟨-, -, -, -, -, hnodup⟩ := h
    exact hnodup
  | _ => exact List.nodup_nil

/-- What a node binds is bound everywhere inside of it, however deep. -/
theorem mem_boundAt_append {nodes : List Node} {σ ρ : Site} (hσ : at? nodes σ = some node)
    (hx : x ∈ node.bound) (hρ : ρ ≠ []) : x ∈ boundAt nodes (σ ++ ρ) := by
  match σ with
  | [] => cases hσ
  | [i] =>
    obtain ⟨j, ρ, rfl⟩ := List.exists_cons_of_ne_nil hρ
    have hi : nodes[i]? = some node := hσ
    rw [List.singleton_append, boundAt, hi]
    exact List.mem_append_left _ hx
  | i :: j :: σ =>
    rw [at?_cons_cons] at hσ
    obtain ⟨first, hfirst, hinside⟩ := Option.bind_eq_some_iff.mp hσ
    rw [List.cons_append, List.cons_append, boundAt, hfirst]
    exact List.mem_append_right _ (mem_boundAt_append hinside hx hρ)

end Node

namespace Program

/-- **The node at a site binds a name** in its body. -/
def Binds (p : Program) (σ : Site) (x : String) : Prop :=
  ∃ node, p.at? σ = some node ∧ x ∈ node.bound

/-- **No name hides another one.** -/
structure NoShadowing (p : Program) : Prop where
  /-- No name is declared twice, at whatever depths. -/
  declared_once : ∀ δ δ' x, p.Declares δ x → p.Declares δ' x → δ = δ'
  /-- What a node binds are different names. -/
  bound_nodup : ∀ σ node, p.at? σ = some node → node.bound.Nodup
  /-- What a node binds is not declared earlier in the text, nor by the node itself. -/
  not_declared_before : ∀ σ x, p.Binds σ x → ∀ δ ≤ σ, ¬p.Declares δ x
  /-- Nor is it declared inside of the node. -/
  not_declared_inside : ∀ σ x, p.Binds σ x → ∀ ρ, ¬p.Declares (σ ++ ρ) x
  /-- Nodes around each other bind different names. -/
  bound_once : ∀ σ ρ x, p.Binds σ x → p.Binds (σ ++ ρ) x → ρ = []

namespace Accepted

variable {V : Vocabulary} {d : Dialect} {library : Bool} {p : Program}
  {warnings : List (String × String)} {σ : Site} {node : Node} {x : String}

/-- **A name that a node introduces is neither declared before nor bound
around it.** It would have a meaning there, and only new names are
introduced. -/
theorem not_known_of_introduces (h : p.Accepted V d library warnings) (hσ : p.at? σ = some node)
    (hx : node.Introduces x) : (∀ δ < σ, ¬p.Declares δ x) ∧ x ∉ p.boundAt σ := by
  obtain ⟨ctx, F, hchecked, -, hsituation⟩ := h.situation (Facts.invariant_true V) trivial hσ
  have hnew : ∀ m, ¬p.Means σ x m := by
    intro m hm
    have hdefined := hsituation.isDefined_iff.mpr ⟨m, hm⟩
    rw [hchecked.introduced_new hx] at hdefined
    cases hdefined
  constructor
  · intro δ hlt hδ
    obtain ⟨symbol, hsymbol⟩ := means_of_declared ⟨δ, hlt, hδ⟩
    exact hnew _ hsymbol
  · intro hbound
    rw [boundAt, Node.boundAt_eq] at hbound
    obtain ⟨⟨_, type⟩, hmem, rfl⟩ := List.mem_map.mp hbound
    exact hnew (.bound type) hmem

/-- Inside of a node that binds a name, no node introduces it. -/
theorem not_introduces_inside (h : p.Accepted V d library warnings) (hσ : p.Binds σ x)
    {ρ : Site} (hρ : ρ ≠ []) (hat : p.at? (σ ++ ρ) = some node) : ¬node.Introduces x := by
  obtain ⟨outer, houter, hx⟩ := hσ
  exact fun hnode => (h.not_known_of_introduces hat hnode).2 (Node.mem_boundAt_append houter hx hρ)

/-- **Acceptable programs have no shadowing.** A name may be used again for
something else, but only where its first meaning is gone. -/
theorem noShadowing (h : p.Accepted V d library warnings) : p.NoShadowing := by
  have hchecked {σ : Site} {node : Node} (hσ : p.at? σ = some node) :
      ∃ ctx F, node.Checked V ctx F := by
    obtain ⟨ctx, F, hchecked, -⟩ := h.situation (Facts.invariant_true V) trivial hσ
    exact ⟨ctx, F, hchecked⟩
  have hself {σ : Site} {x : String} (hσ : p.Binds σ x) : ¬p.Declares σ x := by
    rintro ⟨node, hat, hname⟩
    obtain ⟨node', hat', hx⟩ := hσ
    obtain rfl := Option.some.inj (hat.symm.trans hat')
    obtain ⟨ctx, F, hnode⟩ := hchecked hat
    exact hnode.not_declared_of_bound hx hname
  refine ⟨fun δ δ' x hδ hδ' => h.declares_unique hδ hδ', fun σ node hσ => ?_,
    fun σ x hσ δ hle hδ => ?_, fun σ x hσ ρ hρ => ?_, fun σ ρ x hσ hρ => ?_⟩
  · obtain ⟨ctx, F, hnode⟩ := hchecked hσ
    exact hnode.bound_nodup
  · obtain rfl | hlt := eq_or_lt_of_le hle
    · exact hself hσ hδ
    · obtain ⟨node, hat, hx⟩ := hσ
      exact (h.not_known_of_introduces hat (.inr hx)).1 δ hlt hδ
  · by_cases hnil : ρ = []
    · rw [hnil, List.append_nil] at hρ
      exact hself hσ hρ
    · obtain ⟨node, hat, hname⟩ := hρ
      exact h.not_introduces_inside hσ hnil hat (.inl hname)
  · by_contra hnil
    obtain ⟨node, hat, hx⟩ := hρ
    exact h.not_introduces_inside hσ hnil hat (.inr hx)

end Accepted

/-- **Programs that are read have no shadowing**, from any tokens: they need
not be those of a text. -/
theorem ofTokens_noShadowing {d : Dialect} {library : Bool} {tokens : List Token} {p : Program}
    {warnings : List Warning} (h : ofTokens d library tokens = .ok (p, warnings)) :
    p.NoShadowing :=
  (accepted_of_ofTokens (V := .full) (fun _ _ _ => trivial) h).noShadowing

/-- Two loops inside of each other in a function, with a declaration in the
inner one. The name of the outer loop is bound again by a later loop and then
declared. -/
def reusedNames : Program :=
  ⟨[.function ⟨.i32, "f", [("a", .i32), ("b", .i32)]⟩
      [.loop "i" "0" "a" [.loop "j" "i" "b" [.declare ⟨.i32, "x", .value "j", true⟩], .endLoop],
        .endLoop, .giveBack (some "x")],
    .loop "i" "0" "3" [.output "i" none], .endLoop, .declare ⟨.i32, "i", .value "5", true⟩]⟩

/-- The tokens of that program. -/
def reusedTokens : List Token :=
  [(.fnc, "fnc"), (.type .i32, "i32"), (.identifier, "f"), (.colon, ":"), (.type .i32, "i32"),
    (.identifier, "a"), (.comma, ","), (.type .i32, "i32"), (.identifier, "b"), (.colon, ":"),
    (.loop, "loop"), (.identifier, "i"), (.identifier, "a"), (.loop, "loop"), (.identifier, "j"),
    (.identifier, "i"), (.dotDot, ".."), (.identifier, "b"), (.dec, "dec"), (.type .i32, "i32"),
    (.identifier, "x"), (.identifier, "j"), (.roll, "roll"), (.roll, "roll"), (.rtn, "rtn"),
    (.identifier, "x"), (.endWord, "end"), (.loop, "loop"), (.identifier, "i"), (.number, "3"),
    (.out, "out"), (.identifier, "i"), (.roll, "roll"), (.dec, "dec"), (.type .i32, "i32"),
    (.identifier, "i"), (.number, "5")].map fun word => ⟨word.1, word.2, .start⟩

/-- What the function and its loops bind is not declared up to them or inside
of them, and the inner loop does not bind what the outer one or the function
does. That the outer loop's name is bound and declared later on is no
matter. -/
theorem ofTokens_noShadowing_reused :
    ofTokens .maple false reusedTokens = .ok (reusedNames, []) ∧ reusedNames.NoShadowing ∧
      reusedNames.Binds [0] "b" ∧ (∀ ρ, ¬reusedNames.Declares ([0] ++ ρ) "b") ∧
      reusedNames.Binds [0, 0] "i" ∧ ¬reusedNames.Binds [0, 0, 0] "i" ∧
      reusedNames.Binds [1] "i" ∧ reusedNames.Declares [3] "i" := by
  have hread : ofTokens .maple false reusedTokens = .ok (reusedNames, []) := by decide +kernel
  have hnone := ofTokens_noShadowing hread
  have hb : reusedNames.Binds [0] "b" := ⟨_, rfl, by decide⟩
  have hi : reusedNames.Binds [0, 0] "i" := ⟨_, rfl, by decide⟩
  refine ⟨hread, hnone, hb, hnone.not_declared_inside _ _ hb, hi, ?_, ⟨_, rfl, by decide⟩,
    ⟨_, rfl, rfl⟩⟩
  exact fun hj => absurd (hnone.bound_once [0, 0] [0] "i" hi hj) (by decide)

end Program

end MapleCompiler
