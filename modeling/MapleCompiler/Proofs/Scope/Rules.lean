import MapleCompiler.Scope.Rules

/-!
# What the rules for names and types say

A rule of the scope is a computation that finds a fault or none. Here each
rule is read as the condition it checks, without the order of its questions
and without its messages: `Scope.Stores` is what may be stored in a variable of
a type, `Scope.Selects` which index selects an element, and so on. Every rule
has one lemma, which says that it finds no fault exactly if its condition
holds; what is proved about accepted programs rests on these conditions.

The conditions speak of a `Meaning` through three questions: whether it is a
scalar, whether it may be changed, and which shape it has as an array.
-/

namespace MapleCompiler

namespace Meaning

/-- Whether a name stands for a single value. -/
def isScalar : Meaning → Bool
  | declared ⟨_, _, .scalar _⟩ => true
  | declared _ => false
  | bound _ => true

/-- Whether a name may be assigned to. -/
def isChangeable : Meaning → Bool
  | declared symbol => !symbol.isConstant
  | bound _ => true

/-- The shape of an array. -/
def shape? : Meaning → Option ArrayShape
  | declared symbol => symbol.shape?
  | bound _ => none

/-- What may be changed and has no elements is a scalar: a function is
constant, and a binding of a block is always a scalar. -/
theorem isScalar_of_isChangeable {m : Meaning} (hc : m.isChangeable = true)
    (hs : m.shape? = none) : m.isScalar = true := by
  match m with
  | bound _ => rfl
  | declared ⟨_, _, .scalar _⟩ => rfl
  | declared ⟨_, _, .array _ _⟩ => cases hs
  | declared ⟨_, _, .function _⟩ => cases hc

/-- A scalar has no elements, so it cannot be taken for an array. -/
theorem shape?_of_isScalar {m : Meaning} (h : m.isScalar = true) : m.shape? = none := by
  match m with
  | bound _ => rfl
  | declared ⟨_, _, .scalar _⟩ => rfl
  | declared ⟨_, _, .array _ _⟩ => cases h
  | declared ⟨_, _, .function _⟩ => rfl

theorem not_isScalar_of_shape? {m : Meaning} {shape : ArrayShape} (h : m.shape? = some shape) :
    m.isScalar ≠ true := by
  intro hscalar
  cases (shape?_of_isScalar hscalar).symm.trans h

end Meaning

/-- The symbol that a declaration adds. -/
def Declaration.symbol (d : Declaration) : Symbol :=
  ⟨d.name, d.type,
    match d.initializer with
    | .array size values => .array d.constant ⟨size, values⟩
    | _ => .scalar d.constant⟩

/-- The symbol that a function adds. -/
def Signature.symbol (s : Signature) : Symbol :=
  ⟨s.name, s.returnType, .function s.parameters.length⟩

namespace Scope

variable (s : Scope)

/-- A declaration is found under its name. The search compares names, so what
it finds has the one that was asked for. -/
theorem name_of_lookup? {name : String} {symbol : Symbol} (h : s.lookup? name = some symbol) :
    symbol.name = name :=
  beq_iff_eq.mp (List.find?_some (p := fun x : Symbol => x.name == name) h)

/-- A name that means a declaration is the name of it. Bindings of blocks
carry no name of their own, so nothing is to be said of them. -/
theorem name_of_resolve? {name : String} {symbol : Symbol}
    (h : s.resolve? name = some (.declared symbol)) : symbol.name = name := by
  unfold resolve? at h
  split at h
  · cases h
  · obtain ⟨symbol', hl, heq⟩ := Option.map_eq_some_iff.mp h
    obtain rfl := Meaning.declared.inj heq
    exact s.name_of_lookup? hl

/-! ## Scopes that grow -/

/-- The scope with one more declaration. -/
def declared (symbol : Symbol) : Scope := { s with symbols := s.symbols ++ [symbol] }

/-- The scope inside a block with some bindings, the last one first. -/
def inBlock (bindings : List (String × ValueType)) : Scope :=
  { s with blocks := bindings :: s.blocks }

/-- A name that has a meaning is refused, and the scope that is left is the
one from before. The meaning need not be a declaration: a binding of a block
that is open stands in the way as well. -/
theorem declare_apply (symbol : Symbol) : declare symbol s =
    if s.isDefined symbol.name then .error symbol s else .ok ⟨⟩ (s.declared symbol) := by
  show (if s.isDefined symbol.name then _ else _ : EStateM Symbol Scope Unit) s = _
  split <;> rfl

theorem declare_eq_ok {symbol : Symbol} {u : Unit} {s' : Scope} :
    declare symbol s = .ok u s' ↔ s.isDefined symbol.name = false ∧ s' = s.declared symbol := by
  rw [declare_apply]
  cases s.isDefined symbol.name with
  | true => simp
  | false => simp [eq_comm]

theorem declare_eq_error {symbol symbol' : Symbol} {s' : Scope} :
    declare symbol s = .error symbol' s' ↔
      s.isDefined symbol.name = true ∧ symbol' = symbol ∧ s' = s := by
  rw [declare_apply]
  cases s.isDefined symbol.name with
  | true => simp [eq_comm]
  | false => simp

/-- A new name goes into the innermost block. The blocks around it stay as
they are, and so do the declarations. -/
theorem bindName_of_new {x : String} (type : ValueType) {block : List (String × ValueType)}
    {blocks : List (List (String × ValueType))} (hnew : s.isDefined x = false)
    (hblocks : s.blocks = block :: blocks) :
    bindName x type s = .ok ⟨⟩ { s with blocks := ((x, type) :: block) :: blocks } := by
  obtain ⟨symbols, _, saved⟩ := s
  obtain rfl : _ = block :: blocks := hblocks
  show (if Scope.isDefined _ x then _ else _ : EStateM String Scope Unit) _ = _
  rw [if_neg (by simp [hnew])]
  rfl

/-- Other names are refused, and all of them where there is no block. The
scope that is left is the one from before. -/
theorem bindName_of_refused {x : String} (type : ValueType)
    (h : s.isDefined x = true ∨ s.blocks = []) : bindName x type s = .error x s := by
  obtain ⟨symbols, blocks, saved⟩ := s
  show (if Scope.isDefined _ x then _ else _ : EStateM String Scope Unit) _ = _
  split
  · rfl
  · next hnew =>
    obtain rfl : blocks = [] := h.resolve_left hnew
    rfl

theorem bindName_eq_ok {x : String} {type : ValueType} {u : Unit} {s' : Scope} :
    bindName x type s = .ok u s' ↔ s.isDefined x = false ∧ ∃ block blocks,
      s.blocks = block :: blocks ∧ s' = { s with blocks := ((x, type) :: block) :: blocks } := by
  constructor
  · intro h
    cases hnew : s.isDefined x with
    | true => cases (s.bindName_of_refused type (.inl hnew)).symm.trans h
    | false =>
      cases hblocks : s.blocks with
      | nil => cases (s.bindName_of_refused type (.inr hblocks)).symm.trans h
      | cons block blocks =>
        cases (s.bindName_of_new type hnew hblocks).symm.trans h
        exact ⟨rfl, block, blocks, rfl, rfl⟩
  · rintro ⟨hnew, block, blocks, hblocks, rfl⟩
    exact s.bindName_of_new type hnew hblocks

theorem bindName_eq_error {x y : String} {type : ValueType} {s' : Scope} :
    bindName x type s = .error y s' ↔
      (s.isDefined x = true ∨ s.blocks = []) ∧ y = x ∧ s' = s := by
  constructor
  · intro h
    have hrefused : s.isDefined x = true ∨ s.blocks = [] := by
      cases hnew : s.isDefined x with
      | true => exact .inl rfl
      | false =>
        cases hblocks : s.blocks with
        | nil => exact .inr rfl
        | cons block blocks => cases (s.bindName_of_new type hnew hblocks).symm.trans h
    obtain ⟨rfl, rfl⟩ :=
      EStateM.Result.error.inj ((s.bindName_of_refused type hrefused).symm.trans h)
    exact ⟨hrefused, rfl, rfl⟩
  · rintro ⟨hrefused, rfl, rfl⟩
    exact bindName_of_refused _ type hrefused

/-- Inside a block its bindings have a meaning too, beside all that has one
outside. -/
theorem isDefined_inBlock (bindings : List (String × ValueType)) (x : String) :
    (s.inBlock bindings).isDefined x = ((bindings.lookup x).isSome || s.isDefined x) := by
  unfold isDefined resolve? binding? lookup? inBlock
  rw [List.findSome?_cons]
  cases bindings.lookup x with
  | some t => rfl
  | none => rfl

theorem isDefined_inBlock_cons (y : String) (type : ValueType)
    (bindings : List (String × ValueType)) (x : String) :
    (s.inBlock ((y, type) :: bindings)).isDefined x =
      (x == y || (s.inBlock bindings).isDefined x) := by
  rw [isDefined_inBlock, isDefined_inBlock, List.lookup_cons]
  cases x == y with
  | true => rfl
  | false => rfl

/-- Inside a block a name is bound if it is new there, and goes before the
bindings that the block has. -/
theorem bindName_inBlock {bindings : List (String × ValueType)} {x : String} {type : ValueType}
    {u : Unit} {s' : Scope} :
    bindName x type (s.inBlock bindings) = .ok u s' ↔
      (s.inBlock bindings).isDefined x = false ∧ s' = s.inBlock ((x, type) :: bindings) := by
  rw [bindName_eq_ok]
  refine and_congr_right fun _ => ⟨?_, fun h => ⟨_, _, rfl, h⟩⟩
  rintro ⟨block, blocks, hblocks, rfl⟩
  obtain ⟨rfl, rfl⟩ := List.cons.inj hblocks
  rfl

theorem bind_eq_ok {α β : Type} {x : Except CompileError α} {f : α → Except CompileError β}
    {b : β} : (x >>= f) = .ok b ↔ ∃ a, x = .ok a ∧ f a = .ok b := by
  cases x with
  | error e => simp [bind, Except.bind]
  | ok a => simp [bind, Except.bind]

/-! ## Names and values -/

/-- **What may be stored** in a variable of a type: a literal that the type
accepts, or the name of a scalar of exactly that type. -/
def Stores (type : ValueType) (x : String) : Prop :=
  match Literal.classify x with
  | some literal => type.accepts literal = true
  | none => ∃ m, s.resolve? x = some m ∧ m.isScalar = true ∧ m.type = type

/-- **Which index selects an element**: a name with a meaning, or a number
below the size. -/
def Selects (shape : ArrayShape) (kind : TokenKind) (x : String) : Prop :=
  if kind = .identifier then s.isDefined x = true
  else ∃ i, Literal.index? x = some i ∧ i < shape.size

theorem selects_name {shape : ArrayShape} {x : String} :
    s.Selects shape .identifier x ↔ s.isDefined x = true := by
  unfold Selects
  rw [if_pos rfl]

theorem selects_literal {shape : ArrayShape} {kind : TokenKind} {x : String}
    (hk : kind ≠ .identifier) :
    s.Selects shape kind x ↔ ∃ i, Literal.index? x = some i ∧ i < shape.size := by
  unfold Selects
  rw [if_neg hk]

theorem requireDeclared_eq_ok {t : Token} {u : Unit} :
    s.requireDeclared t = .ok u ↔ (t.kind = .identifier → s.isDefined t.lexeme = true) := by
  unfold requireDeclared isDefined
  by_cases hk : t.kind = .identifier
  · cases s.resolve? t.lexeme with
    | none => simp [hk]
    | some m => simp
  · simp [hk]

/-- **A value may be stored** exactly if the rule finds no fault in it. What
the target is called matters to the message only. -/
theorem checkValue_eq_ok {target : String} {type : ValueType} {t : Token} {u : Unit} :
    s.checkValue target type t = .ok u ↔ s.Stores type t.lexeme := by
  unfold checkValue Stores
  cases hc : Literal.classify t.lexeme with
  | some literal =>
    dsimp only
    split
    · next h => simp [h]
    · next h => simp [h, mismatch]
  | none =>
    cases hm : s.resolve? t.lexeme with
    | none => simp [requireMeaning, hm, bind, Except.bind]
    | some m =>
      simp only [requireMeaning, hm, bind, Except.bind, Option.some.injEq, exists_eq_left']
      match m with
      | .declared ⟨_, _, .function _⟩ => simp [Meaning.isScalar, mismatch]
      | .declared ⟨_, _, .array _ _⟩ => simp [Meaning.isScalar, mismatch]
      | .declared ⟨name, type', .scalar c⟩ =>
        by_cases ht : type' = type
        · simp [Meaning.isScalar, Meaning.type, ht]
        · simp [Meaning.isScalar, Meaning.type, ht, mismatch]
      | .bound type' =>
        by_cases ht : type' = type
        · simp [Meaning.isScalar, Meaning.type, ht]
        · simp [Meaning.isScalar, Meaning.type, ht, mismatch]

/-- **An index selects an element** exactly if the rule finds no fault in it.
A name is not compared with the size: its value is not known here. -/
theorem checkIndex_eq_ok {name : String} {shape : ArrayShape} {index : Token} {u : Unit} :
    s.checkIndex name shape index = .ok u ↔ s.Selects shape index.kind index.lexeme := by
  unfold checkIndex Selects
  by_cases hk : index.kind = .identifier
  · rw [if_pos hk, if_pos hk, requireDeclared_eq_ok]
    exact ⟨fun h => h hk, fun h _ => h⟩
  · rw [if_neg hk, if_neg hk]
    cases Literal.index? index.lexeme with
    | none => simp
    | some i =>
      by_cases hi : i < shape.size
      · simp [hi]
      · simp [hi]

/-- Without an index the rule finds no fault in anything: that the name is
known was asked before. With one, an element has to be selected. -/
theorem checkOutput_eq_ok {name : Token} {index? : Option Token} {u : Unit} :
    s.checkOutput name index? = .ok u ↔
      ∀ index, index? = some index → ∃ m shape, s.resolve? name.lexeme = some m ∧
        m.shape? = some shape ∧ s.Selects shape index.kind index.lexeme := by
  unfold checkOutput
  cases index? with
  | none => simp
  | some index =>
    simp only [Option.some.injEq, forall_eq']
    split
    · next shape heq =>
      rw [checkIndex_eq_ok]
      simp [heq, Meaning.shape?, Symbol.shape?]
    · next hne =>
      simp only [reduceCtorEq, false_iff, not_exists, not_and]
      rintro m shape hm hs
      match m with
      | .bound _ => cases hs
      | .declared ⟨_, _, .scalar _⟩ => cases hs
      | .declared ⟨_, _, .function _⟩ => cases hs
      | .declared ⟨n, t, .array c shape'⟩ => exact absurd hm (hne n t c shape')

/-! ## Places that are written to -/

/-- **What may be assigned to**: a scalar that may be changed, or an element
of an array that may be changed. -/
def Targets (name : String) (index? : Option (TokenKind × String)) (type : ValueType) : Prop :=
  ∃ m, s.resolve? name = some m ∧ m.isChangeable = true ∧ m.type = type ∧
    match index? with
    | none => m.isScalar = true
    | some (kind, x) => ∃ shape, m.shape? = some shape ∧ s.Selects shape kind x

/-- **Where a result may go**: a scalar that may be changed, of a type that
holds it. -/
def Receives (op : Arithmetic) (name : String) : Prop :=
  ∃ m, s.resolve? name = some m ∧ m.isChangeable = true ∧ m.isScalar = true ∧
    holdsResult op m.type = true

/-- **What can be saved**: a scalar of a type that survives it. -/
def Saves (name : String) (m : Meaning) : Prop :=
  s.resolve? name = some m ∧ m.isScalar = true ∧ m.type.hasBackup = true

/-- **What may be assigned to** is what the rule finds no fault in, and the
type it gives is the one of the variable or of the elements. -/
theorem checkTarget_eq_ok {target : Token} {index? : Option Token} {type : ValueType} :
    s.checkTarget target index? = .ok type ↔
      s.Targets target.lexeme (index?.map fun t => (t.kind, t.lexeme)) type := by
  unfold checkTarget Targets
  cases hm : s.resolve? target.lexeme with
  | none => simp [requireMeaning, hm, bind, Except.bind]
  | some m =>
    simp only [requireMeaning, hm, bind, Except.bind, Option.some.injEq, exists_eq_left']
    cases m with
    | bound type' =>
      cases index? with
      | none => simp [Meaning.isChangeable, Meaning.type, Meaning.isScalar]
      | some index => simp [Meaning.shape?]
    | declared symbol =>
      by_cases hc : symbol.isConstant = true
      · simp [Meaning.isChangeable, hc]
      · have hch : (Meaning.declared symbol).isChangeable = true := by
          simpa [Meaning.isChangeable] using hc
        cases hs : symbol.shape? with
        | none =>
          have hscalar := Meaning.isScalar_of_isChangeable hch hs
          cases index? with
          | none => simp [hc, hch, hs, hscalar, Meaning.type]
          | some index => simp [hc, Meaning.shape?, hs]
        | some shape =>
          have hscalar := Meaning.not_isScalar_of_shape? (m := .declared symbol) hs
          cases index? with
          | none => simp [hc, hs, hscalar, mismatch]
          | some index =>
            have hix : s.checkIndex target.lexeme shape index = .ok () ↔ _ := s.checkIndex_eq_ok
            cases hi : s.checkIndex target.lexeme shape index with
            | error e =>
              rw [hi] at hix
              simp [hc, Meaning.shape?, hs, hi, ← hix]
            | ok u => simp [hc, hch, Meaning.shape?, hs, hi, Meaning.type, ← hix]

/-- A scalar is saved if its type survives that. The rule also tells whether
the variable may be changed, which the statement does not ask for. -/
theorem checkBackup_eq_ok {name : Token} {constant : Bool} :
    s.checkBackup name = .ok constant ↔
      ∃ m, s.Saves name.lexeme m ∧ constant = !m.isChangeable := by
  unfold checkBackup Saves
  cases hm : s.resolve? name.lexeme with
  | none => simp [requireMeaning, hm, bind, Except.bind]
  | some m =>
    simp only [requireMeaning, hm, bind, Except.bind, Option.some.injEq, and_assoc,
      exists_eq_left']
    match m with
    | .declared ⟨_, _, .function _⟩ => simp [Meaning.isScalar, mismatch]
    | .declared ⟨_, _, .array _ _⟩ => simp [Meaning.isScalar, mismatch]
    | .declared ⟨_, type, .scalar c⟩ =>
      by_cases hb : type.hasBackup = true
      · simp [Meaning.isScalar, Meaning.type, Meaning.isChangeable, Symbol.isConstant, hb, eq_comm]
      · simp [Meaning.type, mismatch, hb]
    | .bound type =>
      by_cases hb : type.hasBackup = true
      · simp [Meaning.isScalar, Meaning.type, Meaning.isChangeable, hb, eq_comm]
      · simp [Meaning.type, mismatch, hb]

/-- A scalar is restored if it could be saved and may be changed: restoring
writes to it. -/
theorem checkRestore_eq_ok {name : Token} {u : Unit} :
    s.checkRestore name = .ok u ↔ ∃ m, s.Saves name.lexeme m ∧ m.isChangeable = true := by
  unfold checkRestore
  rw [bind_eq_ok]
  constructor
  · rintro ⟨constant, hb, hc⟩
    obtain ⟨m, hs, rfl⟩ := s.checkBackup_eq_ok.mp hb
    cases h : m.isChangeable with
    | true => exact ⟨m, hs, h⟩
    | false => rw [h] at hc; cases hc
  · rintro ⟨m, hs, h⟩
    exact ⟨false, s.checkBackup_eq_ok.mpr ⟨m, hs, by rw [h]; rfl⟩, rfl⟩

theorem checkResult_eq_ok {op : Arithmetic} {target : Token} {u : Unit} :
    s.checkResult op target = .ok u ↔ s.Receives op target.lexeme := by
  unfold checkResult Receives
  cases hm : s.resolve? target.lexeme with
  | none => simp [requireMeaning, hm, bind, Except.bind]
  | some m =>
    simp only [requireMeaning, hm, bind, Except.bind, Option.some.injEq, exists_eq_left']
    cases m with
    | bound type =>
      by_cases hh : holdsResult op type = true
      · simp [Meaning.isChangeable, Meaning.isScalar, Meaning.type, hh]
      · simp [Meaning.type, hh, mismatch]
    | declared symbol =>
      by_cases hc : symbol.isConstant = true
      · simp [Meaning.isChangeable, hc]
      · have hch : (Meaning.declared symbol).isChangeable = true := by
          simpa [Meaning.isChangeable] using hc
        cases hs : symbol.shape? with
        | some shape =>
          have hscalar := Meaning.not_isScalar_of_shape? (m := .declared symbol) hs
          simp [hc, hs, hscalar, mismatch]
        | none =>
          have hscalar := Meaning.isScalar_of_isChangeable hch hs
          by_cases hh : holdsResult op symbol.type = true
          · simp [hc, hs, hch, hscalar, Meaning.type, hh]
          · simp [hc, hs, Meaning.type, hh, mismatch]

/-! ## Elements and calls -/

/-- The array that the name `name` stands for. -/
def IsArray (name : String) (type : ValueType) (shape : ArrayShape) : Prop :=
  ∃ m, s.resolve? name = some m ∧ m.type = type ∧ m.shape? = some shape

/-- A call that initializes a variable of a type names a function that returns
it, if the unit has declared the name at all. -/
def Supplies (function : String) (type : ValueType) : Prop :=
  ∀ symbol, s.lookup? function = some symbol → symbol.isFunction = true ∧ symbol.type = type

/-- A call passes as many arguments as the function has parameters, if it is
one of the unit. -/
def Matches (c : Call) : Prop :=
  ∀ symbol, s.lookup? c.function = some symbol →
    ∀ arity, symbol.arity? = some arity → c.arguments.length = arity

/-- **What a function returns**: a value of its type, or nothing. -/
def Returns (type : ValueType) : Option String → Prop
  | none => type = .empty
  | some x => type ≠ .empty ∧ s.Stores type x

theorem requireArray_eq_ok {source : Token} {symbol : Symbol} {shape : ArrayShape} :
    s.requireArray source = .ok (symbol, shape) ↔
      s.resolve? source.lexeme = some (.declared symbol) ∧ symbol.shape? = some shape := by
  unfold requireArray
  split
  · next symbol' heq =>
    rw [heq]
    cases hs : symbol'.shape? with
    | none => simp; rintro rfl; simp [hs]
    | some shape' =>
      simp only [Except.ok.injEq, Prod.mk.injEq, Option.some.injEq, Meaning.declared.injEq]
      constructor
      · rintro ⟨rfl, rfl⟩; exact ⟨rfl, hs⟩
      · rintro ⟨rfl, h⟩; exact ⟨rfl, Option.some.inj (hs.symm.trans h)⟩
  · next heq => simp [heq]
  · next heq => split <;> simp [heq]

/-- **An element that is read**: at run time through a name, or copied from
the literals that the array started with. The second is decided when the text
is read, so it is what the array held at first and not what it holds by
then. -/
theorem elementValue_eq_ok {target : String} {type : ValueType} {source index : Token}
    {value : AssignedValue} :
    s.elementValue target type source index = .ok value ↔
      ∃ shape, s.IsArray source.lexeme type shape ∧ s.Selects shape index.kind index.lexeme ∧
        if index.kind = .identifier then value = .element source.lexeme index.lexeme
        else ∃ i literal, Literal.index? index.lexeme = some i ∧
          shape.values[i]? = some literal ∧ value = .copied source.lexeme i literal := by
  unfold elementValue
  rw [bind_eq_ok]
  constructor
  · rintro ⟨⟨symbol, shape⟩, ha, h⟩
    obtain ⟨hm, hs⟩ := s.requireArray_eq_ok.mp ha
    have hname := s.name_of_resolve? hm
    dsimp only at h
    split at h
    · cases h
    next htype =>
    obtain ⟨_, hi, h⟩ := bind_eq_ok.mp h
    have hsel := s.checkIndex_eq_ok.mp hi
    refine ⟨shape, ⟨_, hm, Decidable.not_not.mp htype, hs⟩, hsel, ?_⟩
    rw [hname] at h
    split at h
    · next hk => rw [if_pos hk]; exact (Except.ok.inj h).symm
    · next hk =>
      rw [if_neg hk]
      obtain ⟨i, hidx, -⟩ := (s.selects_literal hk).mp hsel
      rw [hidx, Option.getD_some] at h
      split at h
      · next literal hv => exact ⟨i, literal, hidx, hv, (Except.ok.inj h).symm⟩
      · cases h
  · rintro ⟨shape, ⟨m, hm, rfl, hs⟩, hsel, h⟩
    cases m with
    | bound _ => cases hs
    | declared symbol =>
      have hname := s.name_of_resolve? hm
      refine ⟨(symbol, shape), s.requireArray_eq_ok.mpr ⟨hm, hs⟩, ?_⟩
      have htype : ¬symbol.type ≠ (Meaning.declared symbol).type := fun h => h rfl
      dsimp only
      rw [if_neg htype, bind_eq_ok, hname]
      refine ⟨(), s.checkIndex_eq_ok.mpr hsel, ?_⟩
      split at h
      · next hk => rw [if_pos hk, h]
      · next hk =>
        obtain ⟨i, literal, hidx, hv, rfl⟩ := h
        rw [if_neg hk, hidx, Option.getD_some, hv]

theorem checkCallResult_eq_ok {target : String} {type : ValueType} {callee : Token} {u : Unit} :
    s.checkCallResult target type callee = .ok u ↔ s.Supplies callee.lexeme type := by
  unfold checkCallResult Supplies
  cases s.lookup? callee.lexeme with
  | none => simp
  | some symbol =>
    by_cases hf : symbol.isFunction = true
    · by_cases ht : symbol.type = type
      · simp [hf, ht]
      · simp [hf, ht, mismatch]
    · simp [hf]

/-- The number of arguments is compared only for names that the unit declared
as functions; others are left to the libraries. -/
theorem checkArity_eq_ok {callee : Token} {c : Call} {u : Unit}
    (h : callee.lexeme = c.function) : s.checkArity callee c = .ok u ↔ s.Matches c := by
  unfold checkArity Matches
  rw [h]
  cases s.lookup? c.function with
  | none => simp
  | some symbol =>
    cases hs : symbol.arity? with
    | none => simp [hs]
    | some arity =>
      by_cases ha : c.arguments.length = arity
      · simp [hs, ha]
      · simp [hs, ha]

theorem checkReturn_eq_ok {signature : Signature} {keyword : Token} {value? : Option Token}
    {u : Unit} :
    s.checkReturn signature keyword value? = .ok u ↔
      s.Returns signature.returnType (value?.map Token.lexeme) := by
  unfold checkReturn Returns
  cases value? with
  | none => cases signature.returnType <;> simp [mismatch]
  | some value =>
    have hv : s.checkValue signature.name signature.returnType value = .ok u ↔ _ :=
      s.checkValue_eq_ok
    cases ht : signature.returnType <;> rw [ht] at hv <;> simp [mismatch, hv]

end Scope

end MapleCompiler
