import MapleCompiler.Program.Equality
import MapleCompiler.Proofs.Scoping.Resolution

/-!
# Types in programs that are read

`Program.Typed` says what it is for a node to use values of the right types at
its site. It looks at the program only: at the literals, at the variables that
nodes before the site declare, at the bindings and the function around it. The
main statement is that every node of a program that is read is typed
(`Program.ofText_typed`).

The reader checks types in many rules, each against the scope at its place. What
they have in common is that a name resolves to its one meaning at the site
(`Program.Situation.resolves`); each rule is then carried over by one lemma.
-/

namespace MapleCompiler

namespace Program

variable (p : Program)

/-- **The one meaning of a name at a site.** -/
def Resolves (σ : Site) (x : String) (m : Meaning) : Prop := ∀ m', p.Means σ x m' ↔ m' = m

/-- A name is a single value of exactly this type: a variable, loop variable
or parameter, and no array or function. -/
def IsScalar (σ : Site) (x : String) (type : ValueType) : Prop :=
  ∃ m, p.Resolves σ x m ∧ m.isScalar = true ∧ m.type = type

/-- A name is an array with elements of exactly this type. -/
def IsArray (σ : Site) (x : String) (type : ValueType) : Prop :=
  ∃ m shape, p.Resolves σ x m ∧ m.shape? = some shape ∧ m.type = type

/-- **What can be stored in a place of a type**: a literal that the type
accepts, or the name of a single value of exactly that type. -/
def Fits (σ : Site) (type : ValueType) (x : String) : Prop :=
  type.Takes x ∨ Literal.classify x = none ∧ p.IsScalar σ x type

/-- What a variable of a type starts with. A call is not looked at here. -/
def TypedInitializer (σ : Site) (type : ValueType) : Initializer → Prop
  | .value x => p.Fits σ type x
  | .call _ => True
  | .array _ values => ∀ x ∈ values, type.Takes x

/-- What is assigned to a place of a type. -/
def TypedValue (σ : Site) (type : ValueType) : AssignedValue → Prop
  | .plain x => p.Fits σ type x
  | .element array _ => p.IsArray σ array type
  | .copied array _ literal => p.IsArray σ array type ∧ type.Takes literal

/-- The place of an assignment: an element of an array with an index, and a
single value without one. -/
def TypedPlace (σ : Site) (type : ValueType) (name : String) : Option String → Prop
  | none => p.IsScalar σ name type
  | some _ => p.IsArray σ name type

/-- **A node uses values of the right types** at its site. -/
def Typed (σ : Site) : Node → Prop
  | .declare v => p.TypedInitializer σ v.type v.initializer
  | .assign a => ∃ type, p.TypedPlace σ type a.target a.index? ∧ p.TypedValue σ type a.value
  | .giveBack value? =>
    ∃ s, p.functionAt σ = some s ∧ (value? = none ↔ s.returnType = .empty) ∧
      ∀ x, value? = some x → p.Fits σ s.returnType x
  | .save name | .restore name =>
    ∃ type, p.IsScalar σ name type ∧
      (type.isInteger = true ∨ type.isFloat = true ∨ type = .bool)
  | .calculate c =>
    ∃ type, p.IsScalar σ (c.destination?.getD c.left) type ∧ type.isNumeric = true ∧
      (c.op = .mod → type.isInteger = true)
  | _ => True

variable {p}

namespace Situation

variable {σ : Site} {ctx : Context} {F : Facts} {x : String} {type : ValueType}

/-- What the scope finds is the one meaning of the name, and it is the one
that the program gives to it. -/
theorem resolves (h : p.Situation σ ctx F) {m : Meaning} (hm : F.scope.resolve? x = some m) :
    p.Resolves σ x m := by
  intro m'
  rw [← h.resolve?_iff, hm, Option.some.injEq]
  exact eq_comm

theorem isScalar (h : p.Situation σ ctx F) {m : Meaning} (hm : F.scope.resolve? x = some m)
    (hscalar : m.isScalar = true) : p.IsScalar σ x m.type :=
  ⟨m, h.resolves hm, hscalar, rfl⟩

theorem isArray (h : p.Situation σ ctx F) {m : Meaning} {shape : ArrayShape}
    (hm : F.scope.resolve? x = some m) (hshape : m.shape? = some shape) : p.IsArray σ x m.type :=
  ⟨m, shape, h.resolves hm, hshape, rfl⟩

/-- What may be stored fits: a literal that the type accepts, or a name that
means a scalar of exactly this type. -/
theorem fits (h : p.Situation σ ctx F) (hstores : F.scope.Stores type x) : p.Fits σ type x := by
  cases hx : Literal.classify x with
  | some literal => exact .inl (hstores.takes hx)
  | none =>
    unfold Scope.Stores at hstores
    rw [hx] at hstores
    obtain ⟨m, hm, hscalar, rfl⟩ := hstores
    exact .inr ⟨hx, h.isScalar hm hscalar⟩

theorem typedInitializer (h : p.Situation σ ctx F) {d : Dialect} {initial : Initializer}
    (hinitial : Node.Initializes d.vocabulary F.scope type initial) :
    p.TypedInitializer σ type initial := by
  cases initial with
  | value x => exact h.fits hinitial.2
  | call c => trivial
  | array size values => exact hinitial.takes

theorem typedPlace (h : p.Situation σ ctx F) {V : Vocabulary} {index? : Option String}
    (hplace : Node.Assignable V F.scope type x index?) : p.TypedPlace σ type x index? := by
  cases index? with
  | none =>
    obtain ⟨m, hm, -, rfl, hscalar⟩ := hplace
    exact h.isScalar hm hscalar
  | some index =>
    obtain ⟨_, -, -, m, hm, -, rfl, shape, hshape, -⟩ := hplace
    exact h.isArray hm hshape

theorem typedValue (h : p.Situation σ ctx F) (hF : F.ArraysFit) {V : Vocabulary}
    {value : AssignedValue} (hvalue : Node.Assigns V F.scope type value) :
    p.TypedValue σ type value := by
  cases value with
  | plain x => exact h.fits hvalue.2
  | element array index =>
    obtain ⟨-, -, -, shape, m, hm, rfl, hshape⟩ := hvalue
    exact h.isArray hm hshape
  | copied array i literal =>
    have htakes := hvalue.takes_copied hF
    obtain ⟨-, -, shape, ⟨m, hm, rfl, hshape⟩, -⟩ := hvalue
    exact ⟨h.isArray hm hshape, htakes⟩

theorem typedReturn (h : p.Situation σ ctx F) {s : Signature} (hs : ctx.function? = some s)
    {value? : Option String} (hreturns : F.scope.Returns s.returnType value?) :
    p.Typed σ (.giveBack value?) := by
  refine ⟨s, h.function?_eq ▸ hs, ?_⟩
  cases value? with
  | none =>
    have hempty : s.returnType = .empty := hreturns
    exact ⟨iff_of_true rfl hempty, nofun⟩
  | some x =>
    obtain ⟨hempty, hstores⟩ := hreturns
    refine ⟨iff_of_false nofun hempty, ?_⟩
    rintro _ ⟨⟩
    exact h.fits hstores

theorem typedBackup (h : p.Situation σ ctx F) {m : Meaning} (hsaves : F.scope.Saves x m) :
    ∃ type, p.IsScalar σ x type ∧
      (type.isInteger = true ∨ type.isFloat = true ∨ type = .bool) := by
  obtain ⟨hm, hscalar, hbackup⟩ := hsaves
  refine ⟨m.type, h.isScalar hm hscalar, ?_⟩
  simpa [ValueType.hasBackup, ValueType.isNumeric, or_assoc] using hbackup

theorem typedResult (h : p.Situation σ ctx F) {op : Arithmetic}
    (hreceives : F.scope.Receives op x) :
    ∃ type, p.IsScalar σ x type ∧ type.isNumeric = true ∧
      (op = .mod → type.isInteger = true) := by
  obtain ⟨m, hm, -, hscalar, hholds⟩ := hreceives
  refine ⟨m.type, h.isScalar hm hscalar, ?_⟩
  cases op with
  | mod =>
    have hinteger : m.type.isInteger = true := hholds
    exact ⟨by rw [ValueType.isNumeric, hinteger, Bool.true_or], fun _ => hinteger⟩
  | _ => exact ⟨hholds, nofun⟩

end Situation

/-- **Every node of a program that is read uses values of the right types.**
By cases on the node at the site: what the rules asked of the scope is said in
terms of the program. -/
theorem ofText_typed {d : Dialect} {library : Bool} {source : String} {p : Program}
    {warnings : List Warning} (h : ofText d library source = .ok (p, warnings)) {σ : Site}
    {node : Node} (hσ : p.at? σ = some node) : p.Typed σ node := by
  obtain ⟨ctx, F, hchecked, hF, hsituation⟩ :=
    (accepted_of_ofText h).situation (Facts.invariant_arraysFit d) nofun hσ
  cases node with
  | declare v =>
    obtain ⟨-, -, -, -, hinitial⟩ := hchecked
    exact hsituation.typedInitializer hinitial
  | assign a =>
    obtain ⟨-, type, hplace, hvalue⟩ := hchecked
    exact ⟨type, hsituation.typedPlace hplace, hsituation.typedValue hF hvalue⟩
  | giveBack value? =>
    obtain ⟨-, s, hs, hreturns⟩ := hchecked
    exact hsituation.typedReturn hs hreturns
  | save name =>
    obtain ⟨-, m, hsaves⟩ := hchecked
    exact hsituation.typedBackup hsaves
  | restore name =>
    obtain ⟨-, m, hsaves, -⟩ := hchecked
    exact hsituation.typedBackup hsaves
  | calculate c =>
    obtain ⟨-, -, -, hstored⟩ := hchecked
    unfold Node.Stored at hstored
    show ∃ type, p.IsScalar σ (c.destination?.getD c.left) type ∧ _
    cases hd : c.destination? with
    | none =>
      rw [hd] at hstored
      exact hsituation.typedResult hstored.2
    | some name =>
      rw [hd] at hstored
      exact hsituation.typedResult hstored.2.2
  | _ => trivial

/-- A program that copies an element, and returns and saves a parameter. -/
def keepingProgram : Program :=
  ⟨[.declare ⟨.i32, "a", .array 2 ["4", "5"], true⟩, .declare ⟨.i32, "x", .value "0", false⟩,
    .assign ⟨"x", none, .copied "a" 1 "5"⟩,
    .function ⟨.bool, "keep", [("b", .bool)]⟩ [.save "b", .giveBack (some "b")],
    .calculate ⟨.mod, "x", "2", none⟩]⟩

theorem ofText_typed_copied :
    ofText .maple false
        ("dec i32 a [ ] 2 -> { 4 , 5 }\ndec ch i32 x 0\nset x a[1]\n" ++
          "fnc bool keep : bool b :\nback b\nrtn b\nend\nmod x 2") = .ok (keepingProgram, []) ∧
      keepingProgram.Typed [2] (.assign ⟨"x", none, .copied "a" 1 "5"⟩) ∧
      keepingProgram.Typed [3, 1] (.giveBack (some "b")) := by
  have hread : ofText .maple false
      ("dec i32 a [ ] 2 -> { 4 , 5 }\ndec ch i32 x 0\nset x a[1]\n" ++
        "fnc bool keep : bool b :\nback b\nrtn b\nend\nmod x 2") = .ok (keepingProgram, []) := by
    decide +kernel
  exact ⟨hread, ofText_typed hread rfl, ofText_typed hread rfl⟩

end Program

end MapleCompiler
