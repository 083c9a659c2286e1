import Mathlib.Data.List.Lex
import MapleCompiler.Proofs.Scoping.Known
import MapleCompiler.Proofs.Token.Literal

/-!
# Names in acceptable programs

Every operand of an acceptable program is a literal or has a meaning where it
stands (`Node.Checked.operand_defined`); a literal that is copied from an array
is one that the type of the array accepts (`Facts.ArraysFit`). So a name that is
used, and that is no binding, is declared at some site before
(`Program.Accepted.declared_before`). It is declared nowhere else, because a name
that has a meaning is given no second one (`Program.Accepted.declares_unique`).
-/

namespace MapleCompiler

/-! ## The values of arrays -/

/-- **A literal that a type accepts.** -/
def ValueType.Takes (type : ValueType) (x : String) : Prop :=
  ∃ literal, Literal.classify x = some literal ∧ type.accepts literal = true

/-- A literal is stored exactly where its type accepts it. What the scope
knows plays no part: only names are looked up. -/
theorem Scope.Stores.takes {s : Scope} {type : ValueType} {x : String} {literal : Literal}
    (h : s.Stores type x) (hx : Literal.classify x = some literal) : type.Takes x := by
  unfold Scope.Stores at h
  rw [hx] at h
  exact ⟨literal, hx, h⟩

/-- All known arrays start with literals that their type accepts. -/
def Facts.ArraysFit (F : Facts) : Prop :=
  ∀ symbol ∈ F.scope.symbols, ∀ shape, symbol.shape? = some shape →
    ∀ x ∈ shape.values, symbol.type.Takes x

/-- The values that an array starts with are literals of its type. A name is
not among them, so they are known when the text is read. -/
theorem Node.Initializes.takes {d : Dialect} {s : Scope} {type : ValueType} {size : Nat}
    {values : List String} (h : Initializes d.vocabulary s type (.array size values)) :
    ∀ x ∈ values, type.Takes x := by
  obtain ⟨-, -, -, hvalues⟩ := h
  intro x hx
  obtain ⟨⟨kind, hkind, hword⟩, hstores⟩ := hvalues x hx
  obtain ⟨literal, hliteral⟩ := Lexeme.exists_classify hword hkind
  exact hstores.takes hliteral

/-- A literal that is copied from a known array is one of its type. This is
why the arrays that are known have to be kept track of: the literal stands in
another statement. -/
theorem Node.Assigns.takes_copied {V : Vocabulary} {F : Facts} {type : ValueType}
    {array literal : String} {i : Nat} (h : Assigns V F.scope type (.copied array i literal))
    (hF : F.ArraysFit) : type.Takes literal := by
  obtain ⟨-, -, shape, ⟨m, hm, rfl, hshape⟩, -, hliteral⟩ := h
  cases m with
  | bound type => cases hshape
  | declared symbol =>
    exact hF symbol (Scope.means_of_resolve? hm).1 shape hshape literal
      (List.mem_of_getElem? hliteral)

theorem Facts.invariant_arraysFit (d : Dialect) : Invariant d.vocabulary ArraysFit where
  enter {ctx F node} hnode h := by
    intro symbol hmem shape hshape x hx
    obtain hmem | hnew := (collects_symbols.enter F node symbol).mp hmem
    · exact h symbol hmem shape hshape x hx
    cases node with
    | declare v =>
      obtain ⟨-, -, -, -, hinitial⟩ := hnode
      obtain rfl := Option.some.inj hnew
      cases hi : v.initializer with
      | array size values =>
        rw [hi] at hinitial
        rw [Declaration.symbol, hi] at hshape
        obtain rfl := Option.some.inj hshape
        exact hinitial.takes x hx
      | value y => rw [Declaration.symbol, hi] at hshape; cases hshape
      | call c => rw [Declaration.symbol, hi] at hshape; cases hshape
    | function s body =>
      obtain rfl := Option.some.inj hnew
      cases hshape
    | _ => cases hnew
  leave {F node} h := by
    unfold ArraysFit
    rw [collects_symbols.leave]
    exact h

/-! ## Names that are used -/

/-- **A text that names something.** In the small dialect the literals `true`
and `false` are words like names, and are literals where a value is stored. -/
def Dialect.IsName (d : Dialect) (x : String) : Prop :=
  Lexeme d .identifier x ∧ Literal.classify x = none

theorem Scope.isDefined_of_resolve? {s : Scope} {x : String} {m : Meaning}
    (h : s.resolve? x = some m) : s.isDefined x = true := by
  rw [isDefined, h]
  rfl

section NoLiteral

variable {d : Dialect} {s : Scope} {x : String} (hx : Literal.classify x = none)

include hx

/-- What is known and is no literal has a meaning. Literals are known as such,
without a look at the scope. -/
theorem Vocabulary.Known.isDefined (h : d.vocabulary.Known s x) : s.isDefined x = true := by
  obtain ⟨kind, hkind, hword, hdefined⟩ := h
  cases kind with
  | identifier => exact hdefined rfl
  | _ =>
    obtain ⟨literal, hliteral⟩ := Lexeme.exists_classify hword hkind
    cases hx.symm.trans hliteral

theorem Scope.Stores.isDefined {type : ValueType} (h : s.Stores type x) :
    s.isDefined x = true := by
  unfold Scope.Stores at h
  rw [hx] at h
  obtain ⟨m, hm, -⟩ := h
  exact isDefined_of_resolve? hm

theorem Scope.Selects.isDefined {kind : TokenKind} {shape : ArrayShape}
    (h : s.Selects shape kind x) : s.isDefined x = true := by
  unfold Scope.Selects at h
  split at h
  · exact h
  · obtain ⟨i, hi, -⟩ := h
    unfold Literal.index? at hi
    rw [hx] at hi
    cases hi

theorem ValueType.Takes.elim {type : ValueType} (h : type.Takes x) : False := by
  obtain ⟨literal, hliteral, -⟩ := h
  cases hx.symm.trans hliteral

end NoLiteral

namespace Node

variable {d : Dialect} {ctx : Context} {F : Facts} {x : String}

/-- The array that a literal is copied from. -/
def copiedFrom? : Node → Option String
  | .assign ⟨_, _, .copied array _ _⟩ => some array
  | _ => none

/-- **The operands of a node**, its body aside: those that it uses, and the
array that a literal is copied from. -/
def operands (node : Node) : List String := node.uses ++ node.copiedFrom?.toList

theorem Initializes.operand_defined {type : ValueType} {initial : Initializer}
    (h : Initializes d.vocabulary F.scope type initial) (hx : Literal.classify x = none)
    (hmem : x ∈ initializerUses initial) : F.scope.isDefined x = true := by
  cases initial with
  | value y =>
    obtain rfl := List.mem_singleton.mp hmem
    exact h.2.isDefined hx
  | call c => exact (h.1.2 x hmem).isDefined hx
  | array size values => exact ((h.takes x hmem).elim hx).elim

theorem Assigns.operand_defined {type : ValueType} {value : AssignedValue}
    (h : Assigns d.vocabulary F.scope type value) (hF : F.ArraysFit)
    (hx : Literal.classify x = none) (hmem : x ∈ assignedUses value) :
    F.scope.isDefined x = true := by
  cases value with
  | plain y =>
    obtain rfl := List.mem_singleton.mp hmem
    exact h.2.isDefined hx
  | copied array i literal =>
    obtain rfl := List.mem_singleton.mp hmem
    exact ((h.takes_copied hF).elim hx).elim
  | element array index =>
    obtain ⟨-, -, hindex, shape, m, hm, -⟩ := h
    obtain rfl | hmem := List.mem_cons.mp hmem
    · exact Scope.isDefined_of_resolve? hm
    · obtain rfl := List.mem_singleton.mp hmem
      exact hindex

/-- With an index or without, what is assigned to may be changed and has the
type of the place: that of the variable, or that of the elements. -/
theorem Assignable.changeable {V : Vocabulary} {s : Scope} {type : ValueType} {name : String}
    {index? : Option String} (h : Assignable V s type name index?) :
    ∃ m, s.resolve? name = some m ∧ m.isChangeable = true ∧ m.type = type := by
  cases index? with
  | none =>
    obtain ⟨m, hm, hchangeable, htype, -⟩ := h
    exact ⟨m, hm, hchangeable, htype⟩
  | some index =>
    obtain ⟨_, -, -, m, hm, hchangeable, htype, -⟩ := h
    exact ⟨m, hm, hchangeable, htype⟩

/-- What a node uses has a meaning where the node stands, or is a literal. By
cases on the node; each of them has to be known for what is checked of its
operands. -/
theorem Checked.use_defined {node : Node} (h : node.Checked d.vocabulary ctx F)
    (hF : F.ArraysFit) (hx : Literal.classify x = none) (hmem : x ∈ node.uses) :
    F.scope.isDefined x = true := by
  cases node with
  | run count body =>
    obtain rfl := List.mem_singleton.mp hmem
    exact Vocabulary.Known.isDefined hx h
  | declare v =>
    obtain ⟨-, -, -, -, hinitial⟩ := h
    exact hinitial.operand_defined hx hmem
  | assign a =>
    obtain ⟨-, type, htarget, hvalue⟩ := h
    obtain rfl | hmem := List.mem_cons.mp hmem
    · obtain ⟨m, hm, -⟩ := htarget.changeable
      exact Scope.isDefined_of_resolve? hm
    obtain hindex | hmem := List.mem_append.mp hmem
    · rw [Option.mem_toList] at hindex
      rw [hindex] at htarget
      obtain ⟨kind, -, hword, m, -, -, -, shape, -, hselects⟩ := htarget
      exact hselects.isDefined hx
    · exact hvalue.operand_defined hF hx hmem
  | output name index? =>
    obtain ⟨hname, hprintable⟩ := h
    obtain rfl | hindex := List.mem_cons.mp hmem
    · exact hname.isDefined hx
    · rw [Option.mem_toList] at hindex
      rw [hindex] at hprintable
      obtain ⟨type, shape, -, kind, -, hword, hselects⟩ := hprintable
      exact hselects.isDefined hx
  | ifThen c body =>
    obtain ⟨hleft, -, hright⟩ := h
    obtain rfl | hmem := List.mem_cons.mp hmem
    · exact hleft.isDefined hx
    · obtain rfl := List.mem_singleton.mp hmem
      exact hright.isDefined hx
  | elseIf c body =>
    obtain ⟨-, hleft, -, hright⟩ := h
    obtain rfl | hmem := List.mem_cons.mp hmem
    · exact hleft.isDefined hx
    · obtain rfl := List.mem_singleton.mp hmem
      exact hright.isDefined hx
  | loop counter start stop body =>
    obtain ⟨-, -, hstart, hstop⟩ := h
    obtain rfl | hmem := List.mem_cons.mp hmem
    · exact hstart.isDefined hx
    · obtain rfl := List.mem_singleton.mp hmem
      exact hstop.isDefined hx
  | save name =>
    obtain rfl := List.mem_singleton.mp hmem
    obtain ⟨-, m, hm, -⟩ := h
    exact Scope.isDefined_of_resolve? hm
  | restore name =>
    obtain rfl := List.mem_singleton.mp hmem
    obtain ⟨-, m, ⟨hm, -⟩, -⟩ := h
    exact Scope.isDefined_of_resolve? hm
  | giveBack value? =>
    obtain ⟨-, signature, -, hreturns⟩ := h
    rw [uses, Option.mem_toList] at hmem
    rw [hmem] at hreturns
    exact hreturns.2.isDefined hx
  | call c => exact (h.1.2 x hmem).isDefined hx
  | calculate c =>
    obtain ⟨-, hleft, hright, hstored⟩ := h
    obtain rfl | hmem := List.mem_cons.mp hmem
    · exact hleft.isDefined hx
    obtain rfl | hmem := List.mem_cons.mp hmem
    · exact hright.isDefined hx
    · rw [Option.mem_toList] at hmem
      unfold Stored at hstored
      rw [hmem] at hstored
      obtain ⟨-, -, m, hm, -⟩ := hstored
      exact Scope.isDefined_of_resolve? hm
  | qualifiedCall library c =>
    obtain ⟨-, -, -, harguments⟩ := h
    exact (harguments x hmem).isDefined hx
  | otherwise body => cases hmem
  | endIf => cases hmem
  | endLoop => cases hmem
  | function s body => cases hmem
  | useLibrary name span => cases hmem
  | openNamespace name => cases hmem

/-- **Every operand of a node has a meaning** where the node stands, or is a
literal. The variable that an element was copied from is one of them, although
it is not written. -/
theorem Checked.operand_defined {node : Node} (h : node.Checked d.vocabulary ctx F)
    (hF : F.ArraysFit) (hx : Literal.classify x = none) (hmem : x ∈ node.operands) :
    F.scope.isDefined x = true := by
  obtain hmem | hmem := List.mem_append.mp hmem
  · exact h.use_defined hF hx hmem
  · match node, Option.mem_toList.mp hmem, h with
    | .assign ⟨_, _, .copied _ _ _⟩, rfl, h =>
      obtain ⟨-, type, -, -, -, shape, ⟨m, hm, -⟩, -⟩ := h
      exact Scope.isDefined_of_resolve? hm

/-- A node that declares a name needs it to be new, so no name that is
declared before or bound around the node can be declared again. -/
theorem Checked.declared_new {V : Vocabulary} {node : Node} (h : node.Checked V ctx F)
    (hname : node.declared? = some x) : F.scope.isDefined x = false := by
  cases node with
  | declare v =>
    obtain rfl := Option.some.inj hname
    obtain ⟨-, -, -, hnew, -⟩ := h
    exact hnew
  | function s body =>
    obtain rfl := Option.some.inj hname
    obtain ⟨-, -, -, hnew, -⟩ := h
    exact hnew
  | _ => cases hname

end Node

namespace Program.Accepted

variable {d : Dialect} {library : Bool} {p : Program} {warnings : List (String × String)}

/-- **A name that is used is declared before**, or bound around the use. -/
theorem declared_before (h : p.Accepted d.vocabulary d library warnings) {σ : Site} {x : String}
    (hx : d.IsName x) (huse : p.Uses σ x) : ∃ δ, δ < σ ∧ p.Declares δ x := by
  obtain ⟨node, hσ, hmem, hfree⟩ := huse
  obtain ⟨ctx, F, hchecked, hF, hsituation⟩ := h.situation (Facts.invariant_arraysFit d) nofun hσ
  obtain ⟨m, hm⟩ := hsituation.isDefined_iff.mp (hchecked.use_defined hF hx.2 hmem)
  obtain hbound | hdeclared := hm.bound_or_declared
  · exact absurd hbound hfree
  · exact hdeclared

/-- A name that is declared at a site is declared at none before. It would
have a meaning there, also if the block of the first declaration was
closed. -/
theorem not_declared_before {V : Vocabulary} (h : p.Accepted V d library warnings) {δ : Site}
    {x : String} (hδ : p.Declares δ x) : ¬Node.DeclaredBefore p.nodes δ x := by
  obtain ⟨node, hat, hname⟩ := hδ
  obtain ⟨ctx, F, hchecked, -, hsituation⟩ := h.situation (Facts.invariant_true V) trivial hat
  intro hbefore
  obtain ⟨symbol, hsymbol⟩ := means_of_declared hbefore
  have hdefined := hsituation.isDefined_iff.mpr ⟨_, hsymbol⟩
  rw [hchecked.declared_new hname] at hdefined
  cases hdefined

/-- **No name is declared twice.** Of two sites one comes first, and the other
one would be refused; so the site of a declaration can be told from the
name. -/
theorem declares_unique {V : Vocabulary} (h : p.Accepted V d library warnings) {δ δ' : Site}
    {x : String} (hδ : p.Declares δ x) (hδ' : p.Declares δ' x) : δ = δ' := by
  obtain hlt | heq | hlt := lt_trichotomy δ δ'
  · exact absurd ⟨δ, hlt, hδ⟩ (h.not_declared_before hδ')
  · exact heq
  · exact absurd ⟨δ', hlt, hδ'⟩ (h.not_declared_before hδ)

end Program.Accepted

end MapleCompiler
