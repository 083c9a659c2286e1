import Mathlib.Logic.Function.Basic
import MapleCompiler.Proofs.Scoping.Site

/-!
# Running declarations and assignments

A program that only declares and assigns runs from top to bottom over a `Store`,
which has a cell for every variable. What values are is left open: a `Domain`
says what a literal is worth in a place of a type, what an array is filled up
with, which element a value selects and what an unknown function returns. So
whatever is proved about runs holds for every meaning of the literals.

A statement does not run if one of its indices selects no element. `Store.step?`
therefore gives a store or nothing, and `Program.runTo` is the store after the
first statements of a program. What a statement can do is said once, by the
lemmas `Store.step?_eq_some` and `Store.changed?_eq_some`; from them follow the
frames of a statement:

* a variable keeps the form of its cell, unless it is declared
  (`Store.form?_step`);
* an element keeps its value, unless its array is declared or the element itself
  is assigned to (`Store.element?_step`).

`Program.runTo_induction` carries what statements preserve over to runs.
-/

namespace MapleCompiler

/-- **What a variable holds** when the program runs. -/
inductive Cell (V : Type)
  /-- A single value of a type. -/
  | scalar (type : ValueType) (value : V)
  /-- The elements of an array, all of a type. -/
  | array (type : ValueType) (elements : List V)

/-- The form of a cell: its type, and the number of elements of an array. -/
def Cell.form {V : Type} : Cell V → ValueType × Option Nat
  | scalar type _ => (type, none)
  | array type vs => (type, some vs.length)

/-- **The variables of a running program.** -/
structure Store (V : Type) where
  cell? : String → Option (Cell V)

/-- **What values are.** -/
structure Domain (V : Type) where
  /-- What a literal is worth in a place of a type. -/
  literal : ValueType → String → V
  /-- What elements without a literal start with. -/
  zero : ValueType → V
  /-- The element that a value selects as an index. -/
  position? : V → Option Nat
  /-- What a function of another unit returns. -/
  result : Store V → ValueType → Call → V

namespace Store

variable {V : Type}

/-- No variables. -/
def empty : Store V := ⟨fun _ => none⟩

/-- The store with a new cell for a variable. -/
def put (s : Store V) (x : String) (c : Cell V) : Store V := ⟨Function.update s.cell? x (some c)⟩

variable (D : Domain V) (s : Store V)

/-- The form of the cell of a variable. -/
def form? (x : String) : Option (ValueType × Option Nat) := (s.cell? x).map Cell.form

/-- The value of a variable that has a single one. -/
def scalar? (x : String) : Option V :=
  match s.cell? x with
  | some (.scalar _ v) => some v
  | _ => none

/-- **The element of an array.** -/
def element? (x : String) (k : Nat) : Option V :=
  match s.cell? x with
  | some (.array _ vs) => vs[k]?
  | _ => none

/-- The value of an operand in a place of a type. -/
def operand? (type : ValueType) (x : String) : Option V :=
  if (Literal.classify x).isSome then some (D.literal type x) else s.scalar? x

/-- The element that an index selects. -/
def index? (x : String) : Option Nat :=
  if (Literal.classify x).isSome then Literal.index? x else (s.scalar? x).bind D.position?

/-- **The value on the right of an assignment** to a place of a type. A copied
literal is written in place of the element. -/
def assigned? (type : ValueType) : AssignedValue → Option V
  | .plain x => s.operand? D type x
  | .copied _ _ literal => some (D.literal type literal)
  | .element array x => (s.index? D x).bind (s.element? array)

/-- The cell of a new variable. -/
def initial? (v : Declaration) : Option (Cell V) :=
  match v.initializer with
  | .value x => (s.operand? D v.type x).map (.scalar v.type)
  | .call c => some (.scalar v.type (D.result s v.type c))
  | .array size values =>
    some (.array v.type (values.map (D.literal v.type) ++
      List.replicate (size - values.length) (D.zero v.type)))

/-- The cell of a variable after an assignment. -/
def changed? (a : Assignment) : Option (Cell V) :=
  match s.cell? a.target, a.index? with
  | some (.scalar type _), none => (s.assigned? D type a.value).map (.scalar type)
  | some (.array type vs), some x =>
    (s.index? D x).bind fun i =>
      if i < vs.length then (s.assigned? D type a.value).map fun v => .array type (vs.set i v)
      else none
  | _, _ => none

/-- **One statement.** -/
def step? : Node → Option (Store V)
  | .declare v => (s.initial? D v).map (s.put v.name)
  | .assign a => (s.changed? D a).map (s.put a.target)
  | _ => none

/-- **A statement assigns a value to an element.** -/
def Writes (node : Node) (x : String) (k : Nat) (v : V) : Prop :=
  ∃ a y type vs, node = .assign a ∧ a.target = x ∧ a.index? = some y ∧
    s.cell? x = some (.array type vs) ∧ s.index? D y = some k ∧
    s.assigned? D type a.value = some v

variable {D s} {s' : Store V} {node : Node} {x y : String} {c : Cell V} {type : ValueType} {k : Nat}

@[simp] theorem cell?_put_self : (s.put x c).cell? x = some c := Function.update_self ..

theorem cell?_put_of_ne (h : y ≠ x) : (s.put x c).cell? y = s.cell? y :=
  Function.update_of_ne h ..

theorem form?_eq_scalar :
    s.form? x = some (type, none) ↔ ∃ v, s.cell? x = some (.scalar type v) := by
  unfold form?
  cases s.cell? x with
  | none => simp
  | some c => cases c <;> simp [Cell.form]

theorem form?_eq_array {n : Nat} :
    s.form? x = some (type, some n) ↔
      ∃ vs, s.cell? x = some (.array type vs) ∧ vs.length = n := by
  unfold form?
  cases s.cell? x with
  | none => simp
  | some c => cases c <;> simp [Cell.form]

theorem operand?_literal {literal : Literal} (h : Literal.classify x = some literal) :
    s.operand? D type x = some (D.literal type x) := by
  rw [operand?, h]
  rfl

theorem operand?_name (h : Literal.classify x = none) : s.operand? D type x = s.scalar? x := by
  rw [operand?, h]
  rfl

/-- A literal index selects the element that it denotes, whatever the store
holds. -/
theorem index?_literal (h : Literal.index? x = some k) : s.index? D x = some k := by
  unfold index?
  cases hx : Literal.classify x with
  | some literal => exact h
  | none =>
    rw [Literal.index?, hx] at h
    cases h

theorem element?_of_cell {vs : List V} (h : s.cell? x = some (.array type vs)) (k : Nat) :
    s.element? x k = vs[k]? := by
  rw [element?, h]

/-! ## What a statement does -/

/-- **What an assignment does**: it changes the value of a scalar, or one
element of an array. Which of the two it is depends on whether there is an
index. -/
theorem changed?_eq_some {a : Assignment} :
    s.changed? D a = some c ↔
      (∃ type old v, a.index? = none ∧ s.cell? a.target = some (.scalar type old) ∧
        s.assigned? D type a.value = some v ∧ c = .scalar type v) ∨
      ∃ x type vs i v, a.index? = some x ∧ s.cell? a.target = some (.array type vs) ∧
        s.index? D x = some i ∧ i < vs.length ∧ s.assigned? D type a.value = some v ∧
        c = .array type (vs.set i v) := by
  unfold changed?
  split
  · next type old hcell hindex => simp [hcell, hindex, eq_comm (a := c)]
  · next type vs x hcell hindex =>
    simp only [hcell, hindex, Option.bind_eq_some_iff]
    constructor
    · rintro ⟨i, hi, h⟩
      split at h
      · next hlt =>
        obtain ⟨v, hv, rfl⟩ := Option.map_eq_some_iff.mp h
        exact .inr ⟨x, type, vs, i, v, rfl, rfl, hi, hlt, hv, rfl⟩
      · cases h
    · rintro (⟨_, _, _, h, -⟩ | ⟨x', type', vs', i, v, hx, hvs, hi, hlt, hv, rfl⟩)
      · cases h
      · obtain rfl := Option.some.inj hx
        obtain ⟨rfl, rfl⟩ := Cell.array.inj (Option.some.inj hvs)
        exact ⟨i, hi, by rw [if_pos hlt, hv]; rfl⟩
  · next hscalar harray =>
    constructor
    · intro h
      cases h
    · rintro (⟨type, old, v, hindex, hcell, -⟩ | ⟨x, type, vs, i, v, hindex, hcell, -⟩)
      · exact (hscalar type old hcell hindex).elim
      · exact (harray type vs x hcell hindex).elim

/-- **What a statement does**: it puts one cell into the store. A declaration
puts a new one there, and an assignment one of the same form. -/
theorem step?_eq_some :
    s.step? D node = some s' ↔
      (∃ v c, node = .declare v ∧ s.initial? D v = some c ∧ s' = s.put v.name c) ∨
      ∃ a c, node = .assign a ∧ s.changed? D a = some c ∧ s' = s.put a.target c := by
  cases node with
  | declare v => simp [step?, Option.map_eq_some_iff, eq_comm (a := s')]
  | assign a => simp [step?, Option.map_eq_some_iff, eq_comm (a := s')]
  | _ => simp [step?]

/-- An assignment keeps the form of a cell: its type, and the number of its
elements. -/
theorem form?_of_changed? {a : Assignment} (h : s.changed? D a = some c) :
    s.form? a.target = some c.form := by
  obtain ⟨type, old, v, -, hcell, -, rfl⟩ | ⟨x, type, vs, i, v, -, hcell, -, -, -, rfl⟩ :=
    changed?_eq_some.mp h
  · exact form?_eq_scalar.mpr ⟨old, hcell⟩
  · exact form?_eq_array.mpr ⟨vs, hcell, List.length_set.symm⟩

/-- **A variable keeps the form of its cell**, unless it is declared. -/
theorem form?_step (h : s.step? D node = some s') (hdeclared : node.declared? ≠ some x) :
    s'.form? x = s.form? x := by
  obtain ⟨v, c, rfl, -, rfl⟩ | ⟨a, c, rfl, hc, rfl⟩ := step?_eq_some.mp h
  · have hne : x ≠ v.name := fun he => hdeclared (by rw [he]; rfl)
    rw [form?, cell?_put_of_ne hne, form?]
  · by_cases hx : x = a.target
    · rw [hx, form?_of_changed? hc, form?, cell?_put_self]
      rfl
    · rw [form?, cell?_put_of_ne hx, form?]

/-- **An element keeps its value**, unless its array is declared or the
element is assigned to. Other elements of the array may change. -/
theorem element?_step (h : s.step? D node = some s') (hdeclared : node.declared? ≠ some x)
    (hwritten : ∀ v, ¬s.Writes D node x k v) : s'.element? x k = s.element? x k := by
  obtain ⟨v, c, rfl, -, rfl⟩ | ⟨a, c, rfl, hc, rfl⟩ := step?_eq_some.mp h
  · have hne : x ≠ v.name := fun he => hdeclared (by rw [he]; rfl)
    rw [element?, cell?_put_of_ne hne, element?]
  · by_cases hx : x = a.target
    · subst hx
      obtain ⟨type, old, v, -, hcell, -, rfl⟩ |
        ⟨y, type, vs, i, v, hindex, hcell, hi, -, hv, rfl⟩ := changed?_eq_some.mp hc
      · rw [element?, cell?_put_self, element?, hcell]
      · -- another element of the same array is assigned to
        have hne : i ≠ k := by
          rintro rfl
          exact hwritten v ⟨a, y, type, vs, rfl, rfl, hindex, hcell, hi, hv⟩
        rw [element?_of_cell cell?_put_self, element?_of_cell hcell, List.getElem?_set_ne hne]
    · rw [element?, cell?_put_of_ne hx, element?]

/-- **An element has the value that is assigned to it**, right after the
statement. -/
theorem Writes.element?_step {v : V} (hw : s.Writes D node x k v)
    (h : s.step? D node = some s') : s'.element? x k = some v := by
  obtain ⟨a, y, type, vs, rfl, rfl, hindex, hcell, hk, hv⟩ := hw
  obtain ⟨_, _, h', -⟩ | ⟨a', c, ha, hc, rfl⟩ := step?_eq_some.mp h
  · cases h'
  obtain rfl := Node.assign.inj ha
  obtain ⟨_, _, _, hnone, -⟩ | ⟨y', type', vs', i, v', hindex', hcell', hi, hlt, hv', rfl⟩ :=
    changed?_eq_some.mp hc
  · cases hindex.symm.trans hnone
  obtain rfl := Option.some.inj (hindex.symm.trans hindex')
  obtain ⟨rfl, rfl⟩ := Cell.array.inj (Option.some.inj (hcell.symm.trans hcell'))
  obtain rfl := Option.some.inj (hk.symm.trans hi)
  obtain rfl := Option.some.inj (hv.symm.trans hv')
  rw [element?_of_cell cell?_put_self, List.getElem?_set_self hlt]

/-- A statement adds a cell only for the name that it declares. -/
theorem declared?_of_step (h : s.step? D node = some s') (hnone : s.cell? x = none)
    (hsome : s'.cell? x = some c) : node.declared? = some x := by
  by_contra hdeclared
  have hform := form?_step h hdeclared
  rw [form?, form?, hnone, hsome] at hform
  cases hform

end Store

/-! ## Runs -/

namespace Program

variable {V : Type} (D : Domain V) (p : Program)

/-- **The store after the first `i` statements** of a program. -/
def runTo (i : Nat) : Option (Store V) := (p.nodes.take i).foldlM (Store.step? D) .empty

/-- The statement in place `j` assigns a value to an element when the program
runs. -/
def WritesAt (j : Nat) (x : String) (k : Nat) (v : V) : Prop :=
  ∃ node s, p.nodes[j]? = some node ∧ p.runTo D j = some s ∧ s.Writes D node x k v

/-- **The last of the first `i` statements that assigns to an element**, with
the value. -/
def LastWrite (i : Nat) (x : String) (k j : Nat) (v : V) : Prop :=
  j < i ∧ p.WritesAt D j x k v ∧ ∀ l w, j < l → l < i → ¬p.WritesAt D l x k w

variable {D p} {i j k : Nat} {x : String} {node : Node} {s s' : Store V}

theorem runTo_succ (hi : p.nodes[i]? = some node) :
    p.runTo D (i + 1) = (p.runTo D i).bind (·.step? D node) := by
  unfold runTo
  rw [List.take_add_one, hi, Option.toList_some, List.foldlM_append]
  refine bind_congr fun s => ?_
  exact List.foldlM_cons.trans (bind_pure _)

/-- A run does not go beyond the end: after the last statement the store
stays. -/
theorem runTo_succ_of_none (hi : p.nodes[i]? = none) : p.runTo D (i + 1) = p.runTo D i := by
  unfold runTo
  rw [List.take_add_one, hi, Option.toList_none, List.append_nil]

theorem exists_runTo (h : p.runTo D i = some s) (hji : j ≤ i) : ∃ s', p.runTo D j = some s' := by
  unfold runTo at h
  rw [← List.take_append_drop j (p.nodes.take i), List.foldlM_append, List.take_take,
    Nat.min_eq_left hji] at h
  obtain ⟨s', hs', -⟩ := Option.bind_eq_some_iff.mp h
  exact ⟨s', hs'⟩

/-- Every statement so far has run, from the store that the statements before
it left. -/
theorem exists_step (h : p.runTo D i = some s) (hji : j < i) (hj : p.nodes[j]? = some node) :
    ∃ t t', p.runTo D j = some t ∧ t.step? D node = some t' ∧ p.runTo D (j + 1) = some t' := by
  obtain ⟨t', ht'⟩ := exists_runTo h hji
  obtain ⟨t, ht, hstep⟩ := Option.bind_eq_some_iff.mp ((runTo_succ hj).symm.trans ht')
  exact ⟨t, t', ht, hstep, ht'⟩

/-- **What statements preserve, a run preserves.** By induction on the
statements from the one place to the other; each step may know where in the
program it is. -/
theorem runTo_induction {P : Store V → Prop} (hji : j ≤ i) (hs : p.runTo D j = some s)
    (hs' : p.runTo D i = some s') (hP : P s)
    (hstep : ∀ l node t t', j ≤ l → l < i → p.nodes[l]? = some node → p.runTo D l = some t →
      t.step? D node = some t' → P t → P t') : P s' := by
  -- on the number of statements after place `j`; beyond the end nothing runs
  induction hji generalizing s' with
  | refl => exact Option.some.inj (hs.symm.trans hs') ▸ hP
  | @step i hji ih =>
    obtain ⟨t, ht⟩ := exists_runTo hs' (Nat.le_succ i)
    have hbefore : P t := ih ht fun l node t t' hjl hli =>
      hstep l node t t' hjl (Nat.lt_succ_of_lt hli)
    cases hnode : p.nodes[i]? with
    | none =>
      rw [runTo_succ_of_none hnode, ht] at hs'
      exact Option.some.inj hs' ▸ hbefore
    | some node =>
      rw [runTo_succ hnode, ht] at hs'
      exact hstep i node t s' hji (Nat.lt_succ_self i) hnode ht hs' hbefore

/-- An element that nothing assigns to keeps its value, if its array is not
declared meanwhile. -/
theorem element?_runTo (hji : j ≤ i) (hs : p.runTo D j = some s) (hs' : p.runTo D i = some s')
    (hdeclared : ∀ l node, j ≤ l → p.nodes[l]? = some node → node.declared? ≠ some x)
    (hwritten : ∀ l v, j ≤ l → l < i → ¬p.WritesAt D l x k v) :
    s'.element? x k = s.element? x k := by
  refine runTo_induction (P := fun t => t.element? x k = s.element? x k) hji hs hs' rfl ?_
  intro l node t t' hjl hli hnode ht hstep hkept
  rw [← hkept]
  exact Store.element?_step hstep (hdeclared l node hjl hnode) fun v hv =>
    hwritten l v hjl hli ⟨node, t, hnode, ht, hv⟩

/-- **Every variable of the store was declared** by a statement that has run:
a run begins with an empty store. -/
theorem exists_declare (hs : p.runTo D i = some s) {c : Cell V} (hc : s.cell? x = some c) :
    ∃ j node, j < i ∧ p.nodes[j]? = some node ∧ node.declared? = some x := by
  refine runTo_induction (D := D)
    (P := fun t => ∀ c, t.cell? x = some c →
      ∃ j node, j < i ∧ p.nodes[j]? = some node ∧ node.declared? = some x)
    (Nat.zero_le i) rfl hs nofun ?_ c hc
  intro l node t t' _ hli hnode _ hstep hbefore c hc
  cases hcell : t.cell? x with
  | some c' => exact hbefore c' hcell
  | none => exact ⟨l, node, hli, hnode, Store.declared?_of_step hstep hcell hc⟩

/-- Among the first statements there is a last one that assigns to an element,
if there is any. By induction on their number. -/
theorem lastWrite_or_none (D : Domain V) (p : Program) (i : Nat) (x : String) (k : Nat) :
    (∃ j v, p.LastWrite D i x k j v) ∨ ∀ j v, j < i → ¬p.WritesAt D j x k v := by
  induction i with
  | zero => exact .inr fun j v hj => absurd hj (Nat.not_lt_zero j)
  | succ i ih =>
    by_cases hi : ∃ v, p.WritesAt D i x k v
    · obtain ⟨v, hv⟩ := hi
      exact .inl ⟨i, v, Nat.lt_succ_self i, hv, fun l w hil hli => by omega⟩
    · have hlast {l : Nat} {w : V} (hl : ¬l < i) (hli : l < i + 1) : ¬p.WritesAt D l x k w := by
        obtain rfl : l = i := by omega
        exact fun hw => hi ⟨w, hw⟩
      obtain ⟨j, v, hji, hv, hafter⟩ | hnone := ih
      · refine .inl ⟨j, v, Nat.lt_succ_of_lt hji, hv, fun l w hjl hli => ?_⟩
        by_cases hl : l < i
        · exact hafter l w hjl hl
        · exact hlast hl hli
      · refine .inr fun l w hli => ?_
        by_cases hl : l < i
        · exact hnone l w hl
        · exact hlast hl hli

end Program

end MapleCompiler
