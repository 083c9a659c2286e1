import Mathlib.Data.List.Nodup
import MapleCompiler.Proofs.Scoping.Known

/-!
# Scopes under all operations

A scope is a flat table of declarations, a stack of blocks with bindings and the names that
were saved. Nothing in its form keeps a name from having several meanings: it could be
declared and bound, or bound in two blocks, and what `Scope.resolve?` finds would then depend
on the order of its search.

No sequence of operations leads there. The invariant is that all names of a scope, declared
or bound, are different (`Scope.Distinct`); each operation keeps it, since the two that give
a name a meaning ask first whether it has one. What else one expects of a scope follows from
it and is put together in `Scope.WellKept`.

A run goes on with whatever scope an operation left, also if it failed. So operations that
fail may stand anywhere in a run, and that they change nothing is something to be shown
(`Scope.perform_of_fails`). Blocks may be closed that were never opened.

Main statement: `Scope.wellKept_run`.
-/

namespace MapleCompiler

namespace Scope

/-! ## Runs -/

/-- **What can be done to a scope.** -/
inductive Operation
  | declare (symbol : Symbol)
  | bind (name : String) (type : ValueType)
  | openBlock
  | closeBlock
  | recordBackup (name : String)

/-- Whether an operation succeeded, and the scope that it left. -/
def outcome {ε : Type} : EStateM.Result ε Scope Unit → Bool × Scope
  | .ok _ s => (true, s)
  | .error _ s => (false, s)

/-- **An operation on a scope**: whether it succeeds, and the scope that it
leaves. -/
def perform (s : Scope) : Operation → Bool × Scope
  | .declare symbol => outcome (Scope.declare symbol s)
  | .bind name type => outcome (Scope.bindName name type s)
  | .openBlock => (true, s.openBlock)
  | .closeBlock => (true, s.closeBlock)
  | .recordBackup name => (true, s.recordBackup name)

/-- **The scope after a sequence of operations**, each on the scope that the
one before it left. -/
def run (s : Scope) (ops : List Operation) : Scope := ops.foldl (fun s op => (s.perform op).2) s

variable {s s' : Scope} {x : String} {m : Meaning} {symbol : Symbol} {type : ValueType}
  {op : Operation}

@[simp] theorem run_cons (s : Scope) (op : Operation) (ops : List Operation) :
    s.run (op :: ops) = (s.perform op).2.run ops := rfl

theorem outcome_of_fails {ε : Type} {r : EStateM.Result ε Scope Unit}
    (h : (outcome r).1 = false) : ∃ e, r = .error e (outcome r).2 := by
  cases r with
  | ok u s => cases h
  | error e s => exact ⟨e, rfl⟩

theorem outcome_of_succeeds {ε : Type} {r : EStateM.Result ε Scope Unit}
    (h : (outcome r).1 = true) : ∃ u, r = .ok u (outcome r).2 := by
  cases r with
  | ok u s => exact ⟨u, rfl⟩
  | error e s => cases h

/-- **An operation that fails leaves the scope as it was.** Both that can fail
ask before they change anything, so nothing of a refused name is to be found
afterwards. -/
theorem perform_of_fails (h : (s.perform op).1 = false) : (s.perform op).2 = s := by
  cases op with
  | declare symbol =>
    obtain ⟨_, hop⟩ := outcome_of_fails h
    exact (s.declare_eq_error.mp hop).2.2
  | bind x type =>
    obtain ⟨_, hop⟩ := outcome_of_fails h
    exact (s.bindName_eq_error.mp hop).2.2
  | openBlock | closeBlock | recordBackup _ => cases h

/-- What all operations that succeed keep, runs keep. Operations that fail
change nothing, so they need not be looked at; by induction on the operations
of the run. -/
theorem run_induction {Holds : Scope → Prop}
    (hstep : ∀ s op, Holds s → (s.perform op).1 = true → Holds (s.perform op).2) (hs : Holds s)
    (ops : List Operation) : Holds (s.run ops) := by
  induction ops generalizing s with
  | nil => exact hs
  | cons op ops ih =>
    rw [run_cons]
    refine ih ?_
    cases hop : (s.perform op).1 with
    | false =>
      rw [perform_of_fails hop]
      exact hs
    | true => exact hstep s op hs hop

/-- A declaration that succeeds was of a new name, and the scope has it at its
end. -/
theorem perform_declare (h : (s.perform (.declare symbol)).1 = true) :
    s.isDefined symbol.name = false ∧ (s.perform (.declare symbol)).2 = s.declared symbol := by
  obtain ⟨_, hop⟩ := outcome_of_succeeds h
  exact s.declare_eq_ok.mp hop

/-- A binding that succeeds was of a new name and inside a block, the
innermost of which has it now. -/
theorem perform_bind (h : (s.perform (.bind x type)).1 = true) :
    s.isDefined x = false ∧ ∃ block blocks, s.blocks = block :: blocks ∧
      (s.perform (.bind x type)).2 = { s with blocks := ((x, type) :: block) :: blocks } := by
  obtain ⟨_, hop⟩ := outcome_of_succeeds h
  exact s.bindName_eq_ok.mp hop

/-! ## Names are different -/

/-- The names of a scope: those that are declared and those that are bound. -/
def names (s : Scope) : List String :=
  s.symbols.map Symbol.name ++ s.blocks.flatten.map Prod.fst

/-- **All names of a scope are different.** This is the invariant of all runs:
it speaks of declarations and of the bindings of all blocks at once. -/
def Distinct (s : Scope) : Prop := s.names.Nodup

theorem mem_names_iff : x ∈ s.names ↔ ∃ m, s.Means x m := by
  unfold names
  rw [List.mem_append]
  constructor
  · rintro (h | h)
    · obtain ⟨symbol, hmem, rfl⟩ := List.mem_map.mp h
      exact ⟨.declared symbol, hmem, rfl⟩
    · obtain ⟨⟨_, type⟩, hmem, rfl⟩ := List.mem_map.mp h
      exact ⟨.bound type, hmem⟩
  · rintro ⟨m, hm⟩
    cases m with
    | declared symbol => exact .inl (List.mem_map.mpr ⟨symbol, hm.1, hm.2⟩)
    | bound type => exact .inr (List.mem_map.mpr ⟨_, hm, rfl⟩)

theorem not_mem_names_of_new (h : s.isDefined x = false) : x ∉ s.names := by
  rw [mem_names_iff]
  rintro ⟨m, hm⟩
  exact not_means_of_new h hm

theorem distinct_empty : empty.Distinct := List.nodup_nil

/-- A scope with one more name, which is new. In which part of the scope it
stands does not matter. -/
theorem Distinct.cons (h : s.Distinct) (hnew : s.isDefined x = false)
    (hnames : s'.names.Perm (x :: s.names)) : s'.Distinct :=
  hnames.nodup_iff.mpr (List.nodup_cons.mpr ⟨not_mem_names_of_new hnew, h⟩)

/-- **Every operation keeps the names different.** By cases on the operation:
two of them add a name and ask before whether it is new, one takes a block
away, and the others leave the names. -/
theorem Distinct.perform (op : Operation) (h : s.Distinct) (hop : (s.perform op).1 = true) :
    (s.perform op).2.Distinct := by
  cases op with
  | declare symbol =>
    obtain ⟨hnew, heq⟩ := perform_declare hop
    refine heq ▸ h.cons hnew ?_
    simp only [names, declared, List.map_append, List.map_cons, List.map_nil, List.append_assoc]
    exact List.perm_middle
  | bind x type =>
    obtain ⟨hnew, block, blocks, hblocks, heq⟩ := perform_bind hop
    refine heq ▸ h.cons hnew ?_
    simp only [names, hblocks, List.flatten_cons, List.cons_append, List.map_cons]
    exact List.perm_middle
  | openBlock => exact h
  | closeBlock =>
    have hsublist : (s.blocks.tail.flatten).Sublist s.blocks.flatten := by
      cases s.blocks with
      | nil => exact List.Sublist.refl _
      | cons block blocks => exact List.sublist_append_right block blocks.flatten
    exact List.Nodup.sublist ((List.Sublist.refl _).append (hsublist.map Prod.fst)) h
  | recordBackup name => exact h

/-- **All names are different after every run.** Blocks that are closed take
their names with them, so these may be given away again. -/
theorem distinct_run (ops : List Operation) : (empty.run ops).Distinct :=
  run_induction (fun _ op h hop => h.perform op hop) distinct_empty ops

/-- Names that are all different have one meaning each, wherever one looks for
it. -/
theorem Distinct.unambiguous (h : s.Distinct) : s.Unambiguous := by
  obtain ⟨hsymbols, hbindings, hdisjoint⟩ := List.nodup_append'.mp h
  have hmixed {x : String} {symbol : Symbol} {type : ValueType} (hm : s.Means x (.declared symbol))
      (hm' : s.Means x (.bound type)) : False :=
    hdisjoint (List.mem_map.mpr ⟨symbol, hm.1, hm.2⟩) (List.mem_map.mpr ⟨_, hm', rfl⟩)
  intro x m m' hm hm'
  cases m with
  | declared symbol =>
    cases m' with
    | declared symbol' =>
      rw [List.inj_on_of_nodup_map hsymbols hm.1 hm'.1 (hm.2.trans hm'.2.symm)]
    | bound type' => exact (hmixed hm hm').elim
  | bound type =>
    cases m' with
    | declared symbol' => exact (hmixed hm' hm).elim
    | bound type' =>
      rw [(Prod.mk.inj (List.inj_on_of_nodup_map hbindings hm hm' rfl)).2]

/-- A block that has a binding for a name holds it, and the first one that it
holds is the one that is found. -/
theorem mem_of_lookup {block : List (String × ValueType)} (h : block.lookup x = some type) :
    (x, type) ∈ block := by
  obtain ⟨before, after, rfl, -⟩ := List.lookup_eq_some_iff.mp h
  simp

/-- **No name is declared and bound.** It would stand in the list of names
twice. -/
theorem Distinct.lookup_block_eq_none (h : s.Distinct) (hlookup : s.lookup? x = some symbol)
    {block : List (String × ValueType)} (hblock : block ∈ s.blocks) : block.lookup x = none := by
  refine Option.eq_none_iff_forall_ne_some.mpr fun type htype => ?_
  have hdeclared : s.Means x (.declared symbol) :=
    ⟨List.mem_of_find?_eq_some hlookup, s.name_of_lookup? hlookup⟩
  have hbound : s.Means x (.bound type) :=
    List.mem_flatten.mpr ⟨block, hblock, mem_of_lookup htype⟩
  cases h.unambiguous x _ _ hdeclared hbound

/-- **No name is bound in two blocks**, not even if one is inside the other:
inner bindings do not hide outer ones. -/
theorem Distinct.pairwise_blocks (h : s.Distinct) : s.blocks.Pairwise fun block block' =>
    ∀ x, block.lookup x = none ∨ block'.lookup x = none := by
  have hbindings := (List.nodup_append'.mp h).2.1
  rw [List.map_flatten, List.nodup_flatten, List.pairwise_map] at hbindings
  refine hbindings.2.imp fun {block block'} hdisjoint x => ?_
  cases hx : block.lookup x with
  | none => exact .inl rfl
  | some type =>
    refine .inr (Option.eq_none_iff_forall_ne_some.mpr fun type' hx' => ?_)
    exact hdisjoint (List.mem_map.mpr ⟨_, mem_of_lookup hx, rfl⟩)
      (List.mem_map.mpr ⟨_, mem_of_lookup hx', rfl⟩)

/-! ## Searching -/

/-- **What each part of a scope knows about a name**: the table and every
block. -/
def answersOfParts (s : Scope) (x : String) : List (Option Meaning) :=
  (s.lookup? x).map .declared :: s.blocks.map fun block => (block.lookup x).map .bound

theorem means_of_mem_answersOfParts (h : some m ∈ s.answersOfParts x) : s.Means x m := by
  obtain h | h := List.mem_cons.mp h
  · obtain ⟨symbol, hlookup, rfl⟩ := Option.map_eq_some_iff.mp h.symm
    exact ⟨List.mem_of_find?_eq_some hlookup, s.name_of_lookup? hlookup⟩
  · obtain ⟨block, hblock, hanswer⟩ := List.mem_map.mp h
    obtain ⟨type, hlookup, rfl⟩ := Option.map_eq_some_iff.mp hanswer
    exact List.mem_flatten.mpr ⟨block, hblock, mem_of_lookup hlookup⟩

theorem mem_answersOfParts_of_resolve? (h : s.resolve? x = some m) :
    some m ∈ s.answersOfParts x := by
  unfold resolve? at h
  split at h
  · next type hbinding =>
    obtain ⟨block, hblock, hlookup⟩ := List.exists_of_findSome?_eq_some hbinding
    refine List.mem_cons_of_mem _ (List.mem_map.mpr ⟨block, hblock, ?_⟩)
    rw [hlookup]
    exact h
  · exact List.mem_cons.mpr (.inl h.symm)

/-- **The order of a search does not matter.** At most one part of the scope
knows a name, or all that know it say the same; so any order finds what
`Scope.resolve?` finds. -/
theorem Unambiguous.findSome?_answersOfParts (h : s.Unambiguous) {answers : List (Option Meaning)}
    (hperm : answers.Perm (s.answersOfParts x)) : answers.findSome? id = s.resolve? x := by
  cases hfind : answers.findSome? id with
  | some m =>
    obtain ⟨answer, hmem, rfl⟩ := List.exists_of_findSome?_eq_some hfind
    exact (h.resolve?_iff.mpr (means_of_mem_answersOfParts (hperm.mem_iff.mp hmem))).symm
  | none =>
    refine (Option.eq_none_iff_forall_ne_some.mpr fun m hm => ?_).symm
    have hmem := hperm.mem_iff.mpr (mem_answersOfParts_of_resolve? hm)
    cases List.findSome?_eq_none_iff.mp hfind _ hmem

/-! ## What operations do -/

/-- Exactly the names that have a meaning cannot be declared; the symbol is
handed back. The failure says nothing of where the meaning comes from. -/
theorem declare_fails_iff :
    (∃ s', declare symbol s = .error symbol s') ↔ ∃ m, s.Means symbol.name m := by
  simp only [← isDefined_iff, declare_eq_error, true_and, exists_and_left, exists_eq, and_true]

/-- Exactly the names that have a meaning cannot be bound, unless there is no
block; the name is handed back. -/
theorem bindName_fails_iff :
    (∃ s', bindName x type s = .error x s') ↔ (∃ m, s.Means x m) ∨ s.blocks = [] := by
  simp only [← isDefined_iff, bindName_eq_error, true_and, exists_and_left, exists_eq, and_true]

/-- A declaration that succeeds is found under its name, and it is the one
that was made. -/
theorem lookup?_of_declare {u : Unit} (h : declare symbol s = .ok u s') :
    s'.lookup? symbol.name = some symbol := by
  obtain ⟨hnew, rfl⟩ := s.declare_eq_ok.mp h
  have hnone : s.symbols.find? (·.name == symbol.name) = none := by
    refine List.find?_eq_none.mpr fun symbol' hmem hname => ?_
    exact not_means_of_new hnew (m := .declared symbol') ⟨hmem, beq_iff_eq.mp hname⟩
  unfold lookup? declared
  simp [List.find?_append, hnone]

theorem resolve?_of_bindName {u : Unit} (h : bindName x type s = .ok u s') :
    s'.resolve? x = some (.bound type) := by
  obtain ⟨-, block, blocks, -, rfl⟩ := s.bindName_eq_ok.mp h
  simp [resolve?, binding?]

/-- An operation does not change what was declared: a new declaration has
another name, and the rest is about blocks and backups. -/
theorem lookup?_of_perform (hop : (s.perform op).1 = true)
    (h : s.lookup? x = some symbol) : (s.perform op).2.lookup? x = some symbol := by
  cases op with
  | declare symbol' =>
    rw [(perform_declare hop).2]
    unfold lookup? at h ⊢
    simp [declared, List.find?_append, h]
  | bind y type =>
    obtain ⟨-, block, blocks, -, heq⟩ := perform_bind hop
    rw [heq]
    exact h
  | openBlock | closeBlock | recordBackup _ => exact h

/-- **A declaration stays**, whatever is done later. There is no operation
that takes it back, and none that gives its name another meaning. -/
theorem lookup?_run (h : s.lookup? x = some symbol) (ops : List Operation) :
    (s.run ops).lookup? x = some symbol :=
  run_induction (fun _ _ hs hop => lookup?_of_perform hop hs) h ops

/-- **Bindings go with their block**: whatever was bound in it, successfully
or not, closing it leads back to the scope from before. By induction on the
bindings. -/
theorem run_bindings (s : Scope) (block bindings : List (String × ValueType)) :
    (s.inBlock block).run (bindings.map (fun b => .bind b.1 b.2) ++ [.closeBlock]) = s := by
  induction bindings generalizing block with
  | nil => rfl
  | cons b bindings ih =>
    rw [List.map_cons, List.cons_append, run_cons]
    cases hbind : ((s.inBlock block).perform (.bind b.1 b.2)).1 with
    | false =>
      rw [perform_of_fails hbind]
      exact ih block
    | true =>
      obtain ⟨-, block', blocks, hblocks, heq⟩ := perform_bind hbind
      obtain ⟨rfl, rfl⟩ := List.cons.inj hblocks
      rw [heq]
      exact ih _

/-! ## Summary -/

/-- All that one can ask a scope about a name. -/
def answers (s : Scope) (x : String) : Option Symbol × Option Meaning × Bool × Bool :=
  (s.lookup? x, s.resolve? x, s.isDefined x, s.hasBackup x)

/-- **What one may rely on in a scope.** The first five say that a name means
at most one thing, however one searches; the others what operations find, and
what they leave. -/
structure WellKept (s : Scope) : Prop where
  /-- No name is declared and bound. -/
  declared_not_bound : ∀ x symbol, s.lookup? x = some symbol →
    ∀ block ∈ s.blocks, block.lookup x = none
  /-- No name is bound in two blocks. -/
  bound_once :
    s.blocks.Pairwise fun block block' => ∀ x, block.lookup x = none ∨ block'.lookup x = none
  /-- No name has two meanings. -/
  unambiguous : s.Unambiguous
  /-- A name that has a meaning resolves to it. -/
  resolves : ∀ x m, s.resolve? x = some m ↔ s.Means x m
  /-- The parts of the scope may be searched in any order. -/
  any_order : ∀ (x : String) (answers : List (Option Meaning)),
    answers.Perm (s.answersOfParts x) → answers.findSome? id = s.resolve? x
  /-- Only names that have a meaning cannot be declared, and the symbol is handed back. -/
  declare_fails : ∀ symbol,
    (∃ s', declare symbol s = .error symbol s') ↔ ∃ m, s.Means symbol.name m
  /-- Outside of all blocks nothing can be bound, and inside only new names. -/
  bind_fails : ∀ x type,
    (∃ s', bindName x type s = .error x s') ↔ (∃ m, s.Means x m) ∨ s.blocks = []
  /-- What was declared is found. -/
  declare_found : ∀ symbol u s', declare symbol s = .ok u s' →
    s'.lookup? symbol.name = some symbol
  /-- What was bound is found. -/
  bind_found : ∀ x type u s', bindName x type s = .ok u s' →
    s'.resolve? x = some (.bound type)
  /-- After an operation that failed, all answers are what they would have been without it:
  the scope that it left is asked, after whatever is done to that later. -/
  failure_unseen : ∀ op, (s.perform op).1 = false →
    ∀ later x, ((s.perform op).2.run later).answers x = (s.run later).answers x
  /-- A declaration stays what it is. -/
  declaration_stays : ∀ x symbol, s.lookup? x = some symbol →
    ∀ later, (s.run later).lookup? x = some symbol
  /-- A block that is closed leaves no trace of what was bound in it. -/
  block_leaves : ∀ bindings : List (String × ValueType),
    s.run (.openBlock :: (bindings.map (fun b => .bind b.1 b.2) ++ [.closeBlock])) = s

/-- **Every scope that operations lead to is well kept.** Nothing is assumed
of the sequence: operations that fail may be among them, and blocks may be
closed that were never opened. -/
theorem wellKept_run (ops : List Operation) : (empty.run ops).WellKept := by
  have hdistinct := distinct_run ops
  have hunambiguous := hdistinct.unambiguous
  generalize empty.run ops = s at hdistinct hunambiguous
  exact {
    declared_not_bound := fun _ _ hlookup _ hblock =>
      hdistinct.lookup_block_eq_none hlookup hblock
    bound_once := hdistinct.pairwise_blocks
    unambiguous := hunambiguous
    resolves := fun _ _ => hunambiguous.resolve?_iff
    any_order := fun _ _ hperm => hunambiguous.findSome?_answersOfParts hperm
    declare_fails := fun _ => declare_fails_iff
    bind_fails := fun _ _ => bindName_fails_iff
    declare_found := fun _ _ _ h => lookup?_of_declare h
    bind_found := fun _ _ _ _ h => resolve?_of_bindName h
    failure_unseen := fun op hop later x => by rw [perform_of_fails hop]
    declaration_stays := fun _ _ hlookup later => lookup?_run hlookup later
    block_leaves := fun bindings => run_bindings s [] bindings }

/-- A declaration of a bound name fails. It succeeds once the block is closed,
also if another block is closed that is not there. -/
example :
    let counter : Symbol := ⟨"i", .i8, .scalar true⟩
    (empty.run [.openBlock, .bind "i" .i32, .declare counter]).answers "i" =
        (none, some (.bound .i32), true, false) ∧
      (empty.run [.openBlock, .bind "i" .i32, .closeBlock, .closeBlock, .declare counter]).answers
        "i" = (some counter, some (.declared counter), true, false) := by
  decide

end Scope

end MapleCompiler
