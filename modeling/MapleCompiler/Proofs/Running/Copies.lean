import Mathlib.Tactic.IntervalCases
import MapleCompiler.Program.Equality
import MapleCompiler.Proofs.Running.Store
import MapleCompiler.Proofs.Scoping.Resolution

/-!
# Copies of elements

An assignment from an element whose index is a literal does not read the element
when it runs. The reader looks up the literal that the array *started with*, and
the statement assigns that (`AssignedValue.copied`). An assignment from an element
whose index is a name reads it when it runs. Do the two agree?

They do as long as the element still has its first value. The main statement
says when that is (`Program.ofText_copied_iff`): a copied literal is the element
at the time of the copy exactly if the last assignment to the element before it,
if there is one, assigned the value of that literal. If all copied literals are,
the program runs as the one with reads in their place (`Program.reading`).
Otherwise the copy is out of date, and the two programs can end differently
(`Program.ofText_copied_overwritten`).

The argument goes through the cells of the declared variables. In a program that
is read every name has one declaration, so from its declaration on a variable
keeps a cell of the declared form (`Program.Accepted.form?_runTo`), and its
elements change only by assignments to them.
-/

namespace MapleCompiler

/-! ## Reads in place of copies -/

/-- A read of the element in place of a copied literal. -/
def AssignedValue.reading : AssignedValue → AssignedValue
  | .copied array k _ => .element array (toString k)
  | value => value

namespace Node

/-- The statement that reads an element when it runs. -/
def reading : Node → Node
  | .assign a => .assign { a with value := a.value.reading }
  | node => node

/-- Whether a node declares a variable or assigns to one. -/
def isStoring : Node → Bool
  | .declare _ | .assign _ => true
  | _ => false

/-- The arrays that a node selects elements from when it runs, with the
indices. -/
def selections : Node → List (String × String)
  | .assign a =>
    a.index?.toList.map (a.target, ·) ++
      match a.value with
      | .element array x => [(array, x)]
      | _ => []
  | _ => []

end Node

/-- The form of the cell of a declared variable. -/
def Declaration.form (v : Declaration) : ValueType × Option Nat :=
  (v.type, v.symbol.shape?.map ArrayShape.size)

namespace Store

variable {V : Type} (D : Domain V) (s : Store V)

/-- The indices of a node select elements that exist. -/
def InRange (node : Node) : Prop :=
  ∀ q ∈ node.selections, ∃ k v, s.index? D q.2 = some k ∧ s.element? q.1 k = some v

/-- **An element is worth a literal** of the type of its array. -/
def HasLiteral (x : String) (k : Nat) (literal : String) : Prop :=
  ∃ type vs, s.cell? x = some (.array type vs) ∧ vs[k]? = some (D.literal type literal)

variable {D s} {s' : Store V} {v : Declaration}

/-- A declared variable has a cell of the declared form: a scalar, or an array
with as many elements as were declared. -/
theorem form?_declare (h : s.step? D (.declare v) = some s')
    (hlength : ∀ size values, v.initializer = .array size values → values.length ≤ size) :
    s'.form? v.name = some v.form := by
  obtain ⟨c, hc, rfl⟩ := Option.map_eq_some_iff.mp h
  rw [form?, cell?_put_self, Option.map_some]
  unfold Declaration.form Declaration.symbol
  unfold initial? at hc
  cases hi : v.initializer with
  | value x =>
    rw [hi] at hc
    obtain ⟨value, -, rfl⟩ := Option.map_eq_some_iff.mp hc
    rfl
  | call call =>
    rw [hi] at hc
    obtain rfl := Option.some.inj hc
    rfl
  | array size values =>
    rw [hi] at hc
    obtain rfl := Option.some.inj hc
    have hsum : values.length + (size - values.length) = size :=
      Nat.add_sub_cancel' (hlength size values hi)
    simp [Cell.form, Symbol.shape?, hsum]

/-- A declared array starts with its literals, in their order. Of elements
behind the last literal nothing is said. -/
theorem element?_declare (h : s.step? D (.declare v) = some s') {shape : ArrayShape}
    (hshape : v.symbol.shape? = some shape) {k : Nat} {literal : String}
    (hk : shape.values[k]? = some literal) :
    s'.element? v.name k = some (D.literal v.type literal) := by
  obtain ⟨c, hc, rfl⟩ := Option.map_eq_some_iff.mp h
  unfold initial? at hc
  unfold Declaration.symbol at hshape
  cases hi : v.initializer with
  | value x => rw [hi] at hshape; cases hshape
  | call call => rw [hi] at hshape; cases hshape
  | array size values =>
    rw [hi] at hc hshape
    obtain rfl := Option.some.inj hc
    obtain rfl := Option.some.inj hshape
    have hmap : (values.map (D.literal v.type))[k]? = some (D.literal v.type literal) := by
      rw [List.getElem?_map, hk]
      rfl
    rw [element?_of_cell cell?_put_self, List.getElem?_append_left, hmap]
    exact (List.getElem?_eq_some_iff.mp hmap).1

theorem hasLiteral_iff_element? {x literal : String} {k n : Nat} {type : ValueType}
    (hform : s.form? x = some (type, some n)) :
    s.HasLiteral D x k literal ↔ s.element? x k = some (D.literal type literal) := by
  obtain ⟨vs, hcell, -⟩ := form?_eq_array.mp hform
  rw [element?_of_cell hcell]
  constructor
  · rintro ⟨type', vs', hcell', hk⟩
    obtain ⟨rfl, rfl⟩ := Cell.array.inj (Option.some.inj (hcell.symm.trans hcell'))
    exact hk
  · exact fun hk => ⟨type, vs, hcell, hk⟩

/-- Statements with the same effect, one of which copies a literal while the
other one reads the element. They agree if the element still has the value of
the literal. -/
theorem step?_reading {a : Assignment} {array literal x : String} {k : Nat} {type : ValueType}
    (htype : ∀ type' n, s.form? a.target = some (type', n) → type' = type)
    (hvalue : a.value = .copied array k literal) (hx : s.index? D x = some k)
    (helement : s.element? array k = some (D.literal type literal)) :
    s.step? D (.assign { a with value := .element array x }) = s.step? D (.assign a) := by
  have hassigned : s.assigned? D type (.element array x) = s.assigned? D type a.value := by
    show (s.index? D x).bind (s.element? array) = _
    rw [hx, Option.bind_some, helement, hvalue]
    rfl
  have hchanged : s.changed? D { a with value := .element array x } = s.changed? D a := by
    unfold changed?
    dsimp only
    split
    · next type' old hcell hindex =>
      obtain rfl := htype type' none (form?_eq_scalar.mpr ⟨old, hcell⟩)
      rw [hassigned]
    · next type' vs y hcell hindex =>
      obtain rfl := htype type' (some vs.length) (form?_eq_array.mpr ⟨vs, hcell, rfl⟩)
      rw [hassigned]
    · rfl
  unfold step?
  dsimp only
  rw [hchanged]

end Store

/-! ## Runs of acceptable programs -/

namespace Program

variable {V : Type}

/-- **All copied literals are the elements** when they are copied. -/
def CopiesAgree (D : Domain V) (p : Program) : Prop :=
  ∀ i a array k literal s, p.nodes[i]? = some (.assign a) → a.value = .copied array k literal →
    p.runTo D i = some s → s.HasLiteral D array k literal

/-- **The program that reads elements when it runs**, in place of copied
literals. -/
def reading (p : Program) : Program := ⟨p.nodes.map Node.reading⟩

variable {D : Domain V} {p : Program} {i j k : Nat} {x : String} {s : Store V}

/-- At a place that a run has reached, names are those of variables declared
before. The run has gone through declarations and assignments only, so nothing
else can have been declared. -/
theorem Means.exists_declare {m : Meaning} (hm : p.Means [i] x m) (hs : p.runTo D i = some s) :
    ∃ j v, j < i ∧ p.nodes[j]? = some (.declare v) ∧ v.name = x ∧ m = .declared v.symbol := by
  cases m with
  | bound type => cases hm
  | declared symbol =>
    obtain ⟨⟨δ, hlt, hδ⟩, rfl⟩ := hm
    obtain ⟨j, ρ, rfl⟩ := hδ.exists_cons
    obtain ⟨node, hat, hsymbol⟩ := hδ
    have hji : j < i := by simpa [List.cons_lt_cons_iff] using hlt
    obtain ⟨first, hfirst⟩ := Node.exists_first_of_at? hat
    obtain ⟨t, t', -, hstep, -⟩ := exists_step hs hji hfirst
    cases ρ with
    | cons l ρ =>
      -- what runs has no body
      have hbody : first.body = [] := by
        obtain ⟨v, _, rfl, -⟩ | ⟨a, _, rfl, -⟩ := Store.step?_eq_some.mp hstep <;> rfl
      rw [Node.at?_cons_cons, hfirst, Option.bind_some, hbody, Node.at?_nil] at hat
      cases hat
    | nil =>
      obtain rfl := Option.some.inj (hfirst.symm.trans hat)
      obtain ⟨v, _, rfl, -⟩ | ⟨a, _, rfl, -⟩ := Store.step?_eq_some.mp hstep
      · obtain rfl := Option.some.inj hsymbol
        exact ⟨j, v, hji, hfirst, rfl, rfl⟩
      · cases hsymbol

namespace Accepted

variable {W : Vocabulary} {d : Dialect} {library : Bool} {warnings : List (String × String)}
variable (h : p.Accepted W d library warnings)

include h

/-- After its declaration a name is not declared again. So its cell keeps its
form from there on, although its value may change. -/
theorem not_declared_after {l : Nat} {node node' : Node} (hj : p.nodes[j]? = some node)
    (hname : node.declared? = some x) (hl : p.nodes[l]? = some node') (hjl : j < l) :
    node'.declared? ≠ some x := by
  intro hname'
  have hsite : [j] = [l] := h.declares_unique ⟨node, hj, hname⟩ ⟨node', hl, hname'⟩
  exact absurd (List.cons.inj hsite).1 (Nat.ne_of_lt hjl)

/-- The literals of an array are no more than its elements, which was
checked. -/
theorem length_values_le {v : Declaration} (hj : p.nodes[j]? = some (.declare v)) {size : Nat}
    {values : List String} (hi : v.initializer = .array size values) : values.length ≤ size := by
  obtain ⟨ctx, F, hchecked, -, -⟩ := h.situation (Facts.invariant_true W) trivial
    (show p.at? [j] = some (.declare v) from hj)
  obtain ⟨-, -, -, -, hinitial⟩ := hchecked
  rw [hi] at hinitial
  obtain ⟨-, -, hlength, -⟩ := hinitial
  exact hlength

/-- **From its declaration on a variable has a cell of the declared form.** By
induction on the run from there: no statement changes the form of a cell that
it does not declare. -/
theorem form?_runTo (hs : p.runTo D i = some s) {v : Declaration} (hji : j < i)
    (hj : p.nodes[j]? = some (.declare v)) : s.form? v.name = some v.form := by
  obtain ⟨t, t', -, hstep, ht'⟩ := exists_step hs hji hj
  refine runTo_induction (P := fun t => t.form? v.name = some v.form) hji ht' hs ?_ ?_
  · exact Store.form?_declare hstep fun size values hi => h.length_values_le hj hi
  · intro l node u u' hjl _ hl _ hu hform
    rw [← hform]
    exact Store.form?_step hu (h.not_declared_after hj rfl hl hjl)

/-- A name that means something has a cell of that form, where the run has
reached the site. -/
theorem form?_of_resolve? {ctx : Context} {F : Facts} (hsituation : p.Situation [i] ctx F)
    (hs : p.runTo D i = some s) {m : Meaning} (hm : F.scope.resolve? x = some m) :
    s.form? x = some (m.type, m.shape?.map ArrayShape.size) := by
  obtain ⟨j, v, hji, hj, rfl, rfl⟩ :=
    ((hsituation.resolve?_iff x m).mp hm).exists_declare hs
  exact h.form?_runTo hs hji hj

theorem scalar_cell {ctx : Context} {F : Facts} (hsituation : p.Situation [i] ctx F)
    (hs : p.runTo D i = some s) {m : Meaning} (hm : F.scope.resolve? x = some m)
    (hscalar : m.isScalar = true) : ∃ v, s.cell? x = some (.scalar m.type v) := by
  have hform := h.form?_of_resolve? hsituation hs hm
  rw [Meaning.shape?_of_isScalar hscalar] at hform
  exact Store.form?_eq_scalar.mp hform

theorem array_cell {ctx : Context} {F : Facts} (hsituation : p.Situation [i] ctx F)
    (hs : p.runTo D i = some s) {m : Meaning} (hm : F.scope.resolve? x = some m)
    {shape : ArrayShape} (hshape : m.shape? = some shape) :
    ∃ vs, s.cell? x = some (.array m.type vs) ∧ vs.length = shape.size := by
  have hform := h.form?_of_resolve? hsituation hs hm
  rw [hshape] at hform
  exact Store.form?_eq_array.mp hform

/-! ## Statements that run -/

/-- What may be stored has a value: a literal has one in the domain, and a
name has a cell. -/
theorem exists_operand {ctx : Context} {F : Facts} (hsituation : p.Situation [i] ctx F)
    (hs : p.runTo D i = some s) {type : ValueType} (hstores : F.scope.Stores type x) :
    ∃ v, s.operand? D type x = some v := by
  unfold Scope.Stores at hstores
  split at hstores
  · next literal hx => exact ⟨_, Store.operand?_literal hx⟩
  · next hx =>
    obtain ⟨m, hm, hscalar, -⟩ := hstores
    obtain ⟨v, hv⟩ := h.scalar_cell hsituation hs hm hscalar
    exact ⟨v, by rw [Store.operand?_name hx, Store.scalar?, hv]⟩

/-- What may be assigned has a value, if the index of a read selects an
element. Only that can go wrong at run time. -/
theorem exists_assigned {ctx : Context} {F : Facts} (hsituation : p.Situation [i] ctx F)
    (hs : p.runTo D i = some s) {a : Assignment} {type : ValueType}
    (hassigns : Node.Assigns W F.scope type a.value) (hrange : s.InRange D (.assign a)) :
    ∃ v, s.assigned? D type a.value = some v := by
  cases hvalue : a.value with
  | plain y =>
    rw [hvalue] at hassigns
    exact h.exists_operand hsituation hs hassigns.2
  | copied array k literal => exact ⟨_, rfl⟩
  | element array y =>
    obtain ⟨k, v, hk, hv⟩ := hrange (array, y) (by simp [Node.selections, hvalue])
    exact ⟨v, by rw [Store.assigned?, hk, Option.bind_some, hv]⟩

/-- **A statement runs if its indices select elements.** All else that it
needs was checked when it was read. -/
theorem exists_runTo_succ {node : Node} (hi : p.nodes[i]? = some node)
    (hstoring : node.isStoring = true) (hs : p.runTo D i = some s) (hrange : s.InRange D node) :
    ∃ s', p.runTo D (i + 1) = some s' := by
  obtain ⟨ctx, F, hchecked, -, hsituation⟩ := h.situation (Facts.invariant_true W) trivial
    (show p.at? [i] = some node from hi)
  rw [runTo_succ hi, hs]
  cases node with
  | declare v =>
    obtain ⟨-, -, -, -, hinitial⟩ := hchecked
    have hcell : ∃ c, s.initial? D v = some c := by
      unfold Store.initial?
      cases hv : v.initializer with
      | value y =>
        rw [hv] at hinitial
        obtain ⟨value, hvalue⟩ := h.exists_operand hsituation hs hinitial.2
        exact ⟨.scalar v.type value, by dsimp only; rw [hvalue]; rfl⟩
      | call c => exact ⟨_, rfl⟩
      | array size values => exact ⟨_, rfl⟩
    obtain ⟨c, hc⟩ := hcell
    exact ⟨_, Store.step?_eq_some.mpr (.inl ⟨v, c, rfl, hc, rfl⟩)⟩
  | assign a =>
    obtain ⟨-, type, hplace, hassigns⟩ := hchecked
    obtain ⟨v, hv⟩ := h.exists_assigned hsituation hs hassigns hrange
    have hcell : ∃ c, s.changed? D a = some c := by
      cases hindex : a.index? with
      | none =>
        rw [hindex] at hplace
        obtain ⟨m, hm, -, rfl, hscalar⟩ := hplace
        obtain ⟨old, hold⟩ := h.scalar_cell hsituation hs hm hscalar
        exact ⟨_, Store.changed?_eq_some.mpr (.inl ⟨_, old, v, hindex, hold, hv, rfl⟩)⟩
      | some y =>
        rw [hindex] at hplace
        obtain ⟨_, -, -, m, hm, -, rfl, shape, hshape, -⟩ := hplace
        obtain ⟨vs, hvs, -⟩ := h.array_cell hsituation hs hm hshape
        obtain ⟨l, old, hl, hold⟩ := hrange (a.target, y) (by simp [Node.selections, hindex])
        rw [Store.element?_of_cell hvs] at hold
        have hlt := (List.getElem?_eq_some_iff.mp hold).1
        exact ⟨_, Store.changed?_eq_some.mpr
          (.inr ⟨y, _, vs, l, v, hindex, hvs, hl, hlt, hv, rfl⟩)⟩
    obtain ⟨c, hc⟩ := hcell
    exact ⟨_, Store.step?_eq_some.mpr (.inr ⟨a, c, rfl, hc, rfl⟩)⟩
  | _ => cases hstoring

/-! ## Elements in a run -/

/-- **The last write wins**: an element has the value that was assigned to it
last. No later statement assigns to it, and the array is not declared again,
so the run keeps it. -/
theorem element?_of_lastWrite (hs : p.runTo D i = some s) {v : V}
    (hlast : p.LastWrite D i x k j v) : s.element? x k = some v := by
  obtain ⟨hji, ⟨node, t, hj, ht, hwrites⟩, hafter⟩ := hlast
  obtain ⟨u, t', hu, hstep, ht'⟩ := exists_step hs hji hj
  obtain rfl := Option.some.inj (ht.symm.trans hu)
  have hcell : ∃ c, t.cell? x = some c := by
    obtain ⟨_, _, _, _, -, -, -, hcell, -⟩ := hwrites
    exact ⟨_, hcell⟩
  obtain ⟨c, hc⟩ := hcell
  -- the array was there to be written to, so its declaration comes before the write
  obtain ⟨l, node', hlj, hl, hname⟩ := exists_declare ht hc
  have hkept : s.element? x k = t'.element? x k := by
    refine element?_runTo hji ht' hs (fun l' node'' hjl' hl' => ?_) fun l' w hjl' hl'i => ?_
    · exact h.not_declared_after hl hname hl' (by omega)
    · exact hafter l' w hjl' hl'i
  rw [hkept, hwrites.element?_step hstep]

/-- An array that nothing assigns to keeps its literals, from its declaration
on. -/
theorem element?_of_not_written (hs : p.runTo D i = some s) {v : Declaration} (hji : j < i)
    (hj : p.nodes[j]? = some (.declare v)) {shape : ArrayShape}
    (hshape : v.symbol.shape? = some shape) {literal : String}
    (hk : shape.values[k]? = some literal)
    (hnone : ∀ l w, l < i → ¬p.WritesAt D l v.name k w) :
    s.element? v.name k = some (D.literal v.type literal) := by
  obtain ⟨t, t', -, hstep, ht'⟩ := exists_step hs hji hj
  have hkept : s.element? v.name k = t'.element? v.name k := by
    refine element?_runTo hji ht' hs (fun l node hjl hl => ?_) fun l w _ hli => hnone l w hli
    exact h.not_declared_after hj rfl hl hjl
  rw [hkept, Store.element?_declare hstep hshape hk]

/-- **Where a copied literal comes from**: an array that was declared before,
with elements of the type of the target. It is the literal that the array
started with at this index. -/
theorem exists_source (hs : p.runTo D i = some s) {a : Assignment} {array literal : String}
    (hi : p.nodes[i]? = some (.assign a)) (hvalue : a.value = .copied array k literal) :
    ∃ j v shape, j < i ∧ p.nodes[j]? = some (.declare v) ∧ v.name = array ∧
      v.symbol.shape? = some shape ∧ shape.values[k]? = some literal ∧ k < shape.size ∧
      k < Literal.indexBound ∧ s.form? v.name = some (v.type, some shape.size) ∧
      ∀ type n, s.form? a.target = some (type, n) → type = v.type := by
  obtain ⟨ctx, F, hchecked, -, hsituation⟩ := h.situation (Facts.invariant_true W) trivial
    (show p.at? [i] = some (.assign a) from hi)
  obtain ⟨-, type, hplace, hassigns⟩ := hchecked
  rw [hvalue] at hassigns
  obtain ⟨-, hbound, shape, ⟨m, hm, rfl, hshape⟩, hsize, hliteral⟩ := hassigns
  obtain ⟨j, v, hji, hj, hname, rfl⟩ := ((hsituation.resolve?_iff array m).mp hm).exists_declare hs
  -- the type of the elements was checked against that of the target
  obtain ⟨m', hm', -, htype⟩ := hplace.changeable
  have hcell : s.form? v.name = some (v.type, some shape.size) := by
    rw [h.form?_runTo hs hji hj, Declaration.form, show v.symbol.shape? = some shape from hshape]
    rfl
  refine ⟨j, v, shape, hji, hj, hname, hshape, hliteral, hsize, hbound, hcell, ?_⟩
  intro type n hform
  rw [h.form?_of_resolve? hsituation hs hm'] at hform
  exact (Prod.mk.inj (Option.some.inj hform)).1.symm.trans htype

/-- **When a copied literal is the element**: if the last assignment to the
element, should there be one, assigned its value. -/
theorem hasLiteral_iff (hs : p.runTo D i = some s) {a : Assignment} {array literal : String}
    (hi : p.nodes[i]? = some (.assign a)) (hvalue : a.value = .copied array k literal) :
    ∃ type n, s.form? array = some (type, some n) ∧ k < n ∧
      (s.HasLiteral D array k literal ↔
        ∀ j v, p.LastWrite D i array k j v → v = D.literal type literal) := by
  obtain ⟨j, v, shape, hji, hj, rfl, hshape, hliteral, hsize, -, hform, -⟩ :=
    h.exists_source hs hi hvalue
  refine ⟨v.type, shape.size, hform, hsize, ?_⟩
  rw [Store.hasLiteral_iff_element? hform]
  constructor
  · intro helement l w hlast
    rw [h.element?_of_lastWrite hs hlast] at helement
    exact Option.some.inj helement
  · intro hwritten
    -- without any write the element is still the literal of the declaration
    obtain ⟨l, w, hlast⟩ | hnone := lastWrite_or_none D p i v.name k
    · rw [h.element?_of_lastWrite hs hlast, hwritten l w hlast]
    · exact h.element?_of_not_written hs hji hj hshape hliteral hnone

/-- A statement that copies an element as it is does what a read of it
does. -/
theorem step?_element (hs : p.runTo D i = some s) {a : Assignment} {array literal : String}
    (hi : p.nodes[i]? = some (.assign a)) (hvalue : a.value = .copied array k literal)
    (hliteral : s.HasLiteral D array k literal) (hx : s.index? D x = some k) :
    s.step? D (.assign { a with value := .element array x }) = s.step? D (.assign a) := by
  obtain ⟨_, v, _, -, -, rfl, -, -, -, -, hform, htype⟩ := h.exists_source hs hi hvalue
  have helement := (Store.hasLiteral_iff_element? hform).mp hliteral
  exact Store.step?_reading htype hvalue hx helement

/-- **Copies that agree can be replaced by reads.** The two programs run
alike; by induction on the run, with one statement at a time. -/
theorem runTo_reading (hagree : p.CopiesAgree D) (i : Nat) :
    p.reading.runTo D i = p.runTo D i := by
  -- both programs are at the same store before each statement, so the copies agree there
  induction i with
  | zero => rfl
  | succ i ih =>
    have hreading : p.reading.nodes[i]? = p.nodes[i]?.map Node.reading := List.getElem?_map
    cases hi : p.nodes[i]? with
    | none => rw [runTo_succ_of_none hi, runTo_succ_of_none (by rw [hreading, hi]; rfl), ih]
    | some node =>
      rw [hi] at hreading
      rw [runTo_succ hi, runTo_succ hreading, ih]
      cases hs : p.runTo D i with
      | none => rfl
      | some s =>
        show s.step? D node.reading = s.step? D node
        cases node with
        | assign a =>
          obtain ⟨target, index?, value⟩ := a
          cases value with
          | copied array k literal =>
            obtain ⟨_, _, _, -, -, -, -, -, -, hbound, -, -⟩ := h.exists_source hs hi rfl
            exact h.step?_element hs hi rfl (hagree i _ array k literal s hi rfl hs)
              (Store.index?_literal (Literal.index?_toString hbound))
          | plain y => rfl
          | element array y => rfl
        | _ => rfl

end Accepted

/-- **Copied literals and elements.** A program that is read runs over every
domain, statement by statement, as long as the indices select elements. A
literal that a statement copies is the element at that time exactly if the
last assignment to the element before, should there be one, assigned the value
of the literal; then the statement does what a read does, with whatever index
selects the element. If this holds of all copied literals, the program runs as
the one with reads. -/
theorem ofText_copied_iff {d : Dialect} {library : Bool} {source : String} {p : Program}
    {warnings : List Warning} (h : ofText d library source = .ok (p, warnings)) {V : Type}
    (D : Domain V) :
    (∀ i node s, p.nodes[i]? = some node → node.isStoring = true → p.runTo D i = some s →
      s.InRange D node → ∃ s', p.runTo D (i + 1) = some s') ∧
    (∀ i a array k literal s, p.nodes[i]? = some (.assign a) →
      a.value = .copied array k literal → p.runTo D i = some s →
      (∃ type n, s.form? array = some (type, some n) ∧ k < n ∧
        (s.HasLiteral D array k literal ↔
          ∀ j v, p.LastWrite D i array k j v → v = D.literal type literal)) ∧
      (s.HasLiteral D array k literal → ∀ x, s.index? D x = some k →
        s.step? D (.assign { a with value := .element array x }) = s.step? D (.assign a))) ∧
    (p.CopiesAgree D → ∀ i, p.reading.runTo D i = p.runTo D i) := by
  have haccepted := accepted_of_ofText h
  refine ⟨fun i node s hi hstoring hs => haccepted.exists_runTo_succ hi hstoring hs, ?_,
    haccepted.runTo_reading⟩
  intro i a array k literal s hi hvalue hs
  exact ⟨haccepted.hasLiteral_iff hs hi hvalue,
    fun hliteral x hx => haccepted.step?_element hs hi hvalue hliteral hx⟩

/-- **Values that are their texts**, as literals are written. -/
def texts : Domain String where
  literal _ x := x
  zero _ := "0"
  position? := Literal.index?
  result _ _ c := c.function

/-- A program that copies an element after it got its first value back. -/
def restoredCopy : Program :=
  ⟨[.declare ⟨.i32, "a", .array 2 ["1", "2"], false⟩, .declare ⟨.i32, "x", .value "0", false⟩,
    .assign ⟨"a", some "1", .plain "9"⟩, .assign ⟨"a", some "1", .plain "2"⟩,
    .assign ⟨"x", none, .copied "a" 1 "2"⟩]⟩

theorem ofText_copied_iff_restored :
    ofText .maple false
        ("dec ch i32 a [ ] 2 -> { 1 , 2 }\ndec ch i32 x 0\nset a[1] 9\nset a[1] 2\n" ++
          "set x a[1]") = .ok (restoredCopy, []) ∧
      restoredCopy.CopiesAgree texts ∧
      ∀ i, restoredCopy.reading.runTo texts i = restoredCopy.runTo texts i := by
  have hread : ofText .maple false
      ("dec ch i32 a [ ] 2 -> { 1 , 2 }\ndec ch i32 x 0\nset a[1] 9\nset a[1] 2\n" ++
        "set x a[1]") = .ok (restoredCopy, []) := by decide +kernel
  obtain ⟨-, hcopies, hreading⟩ := ofText_copied_iff hread texts
  have hagree : restoredCopy.CopiesAgree texts := by
    intro i a array k literal s hi hvalue hs
    obtain ⟨⟨type, n, hform, -, -⟩, -⟩ := hcopies i a array k literal s hi hvalue hs
    have hlength : i < 5 := (List.getElem?_eq_some_iff.mp hi).1
    interval_cases i
    · cases hi
    · cases hi
    · cases hi
      cases hvalue
    · cases hi
      cases hvalue
    · cases hi
      cases hvalue
      have helement : (restoredCopy.runTo texts 4).bind (·.element? "a" 1) = some "2" := by
        decide +kernel
      rw [hs] at helement
      exact (Store.hasLiteral_iff_element? hform).mpr helement
  exact ⟨hread, hagree, hreading hagree⟩

/-- A program that copies the element after it was overwritten. -/
def overwrittenCopy : Program :=
  ⟨[.declare ⟨.i32, "a", .array 2 ["1", "2"], false⟩, .declare ⟨.i32, "x", .value "0", false⟩,
    .assign ⟨"a", some "1", .plain "9"⟩, .assign ⟨"x", none, .copied "a" 1 "2"⟩]⟩

/-- **A copied literal is out of date** when its element has been
overwritten. -/
theorem ofText_copied_overwritten :
    ofText .maple false
        "dec ch i32 a [ ] 2 -> { 1 , 2 }\ndec ch i32 x 0\nset a[1] 9\nset x a[1]" =
      .ok (overwrittenCopy, []) ∧
    (overwrittenCopy.runTo texts 3).bind (·.element? "a" 1) = some "9" ∧
    ¬overwrittenCopy.CopiesAgree texts ∧
    (overwrittenCopy.runTo texts 4).bind (·.scalar? "x") = some "2" ∧
    (overwrittenCopy.reading.runTo texts 4).bind (·.scalar? "x") = some "9" := by
  have helement : (overwrittenCopy.runTo texts 3).bind (·.element? "a" 1) = some "9" := by
    decide +kernel
  refine ⟨by decide +kernel, helement, fun hagree => ?_, by decide +kernel, by decide +kernel⟩
  obtain ⟨s, hs, hnine⟩ := Option.bind_eq_some_iff.mp helement
  obtain ⟨type, vs, hcell, htwo⟩ := hagree 3 _ "a" 1 "2" s rfl rfl hs
  rw [Store.element?_of_cell hcell, htwo] at hnine
  exact absurd (show "2" = "9" from Option.some.inj hnine) (by decide)

end Program

end MapleCompiler
