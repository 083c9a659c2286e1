import Mathlib.Data.Option.Basic
import MapleCompiler.Program.Block
import MapleCompiler.Proofs.Program.Renaming
import MapleCompiler.Proofs.Scope.Renaming

/-!
# Two readings side by side

What is read from a list of tokens should not depend on some things: on where the tokens
stand, on the dialect, on which names were chosen. Each of these is a statement about two
readings, of two lists whose tokens are counterparts of each other. A `Pairing` says which
tokens are counterparts and what the two readings then have in common: the tokens are of
the same kinds, names are replaced through one map, and errors at counterparts are related.

Most decisions of a reading are made by the rules of the scope. This module shows that
each of them decides alike in scopes with the same names (`Pairing.Rules`): it finds
related results, or faults that are related.
-/

namespace MapleCompiler

theorem TokenKind.isOperand_of_isLiteral {kind : TokenKind} (h : kind.isLiteral = true) :
    kind.isOperand = true := by
  cases kind <;> first | rfl | exact h

namespace Fault

/-- Whether a fault is about an imported library, not about a text. -/
def isImport : Fault → Bool
  | .libraryNotFound _ | .cyclicImport _ | .libraryUnreadable _ _ | .importsTooDeep _ => true
  | _ => false

/-- **A fault of a text with two texts in its message**: its code does not
depend on them, and it is not about a library. Messages with fewer texts
ignore the others. -/
def IsWorded (fault : String → String → Fault) : Prop :=
  ∀ x y, ((fault x y).code, (fault x y).isImport) = ((fault "" "").code, false)

variable {fault : String → String → Fault}

/-- What is in the message does not change the code. -/
theorem IsWorded.code_eq (h : IsWorded fault) (x y x' y' : String) :
    (fault x y).code = (fault x' y').code :=
  (Prod.ext_iff.mp (h x y)).1.trans (Prod.ext_iff.mp (h x' y')).1.symm

theorem IsWorded.isOwn (h : IsWorded fault) (x y : String) : (fault x y).isImport = false :=
  (Prod.ext_iff.mp (h x y)).2

end Fault

/-- **Tokens and their counterparts in a second list**, with what follows from
it. The relations are chosen by each statement about two readings; the laws
are what a reading needs to stay with the other one. -/
structure Pairing where
  /-- The dialect of the first reading. -/
  dialect : Dialect
  /-- The dialect of the second reading. -/
  dialect' : Dialect
  /-- What takes the place of a name. -/
  rename : String → String
  /-- What is kept of the place of an import. -/
  place : Span → Span
  /-- Tokens that are counterparts. -/
  token : Token → Token → Prop
  /-- Texts that take each other's place in messages. -/
  text : String → String → Prop
  /-- Errors that the two readings may end with. -/
  error : CompileError → CompileError → Prop
  /-- Warnings that the two readings may give. -/
  warning : Warning → Warning → Prop
  rename_injective : Function.Injective rename
  /-- The default start of a loop stays. -/
  rename_zero : rename "0" = "0"
  kind_eq {t t' : Token} : token t t' → t'.kind = t.kind
  lexeme_eq {t t' : Token} : token t t' → t.kind.isOperand = true → t'.lexeme = rename t.lexeme
  classify_eq {t t' : Token} : token t t' → t.kind.isOperand = true →
    Literal.classify t'.lexeme = Literal.classify t.lexeme
  /-- Only names are replaced. -/
  fixed_eq {t t' : Token} : token t t' →
    t.kind.isLiteral = true ∨ t.kind = .libraryName ∨ t.kind = .qualifier → t'.lexeme = t.lexeme
  place_eq {t t' : Token} : token t t' → t.kind = .libraryName → place t.span = place t'.span
  text_rename (x : String) : text x (rename x)
  text_lexeme {t t' : Token} : token t t' → text t.lexeme t'.lexeme
  /-- Faults that differ in two texts only. -/
  error_at {t t' : Token} {x x' y y' : String} (fault : String → String → Fault) :
    Fault.IsWorded fault → token t t' → text x x' → text y y' →
      error (.atToken (fault x y) t) (.atToken (fault x' y') t')
  /-- The words that end a branch are spelled in the dialect of the reading. -/
  error_branch {t t' : Token} : token t t' → t.kind ≠ .eof →
    error (.unexpected (dialect.describeClosers [.endWord, .elifWord, .elseWord]) t)
      (.unexpected (dialect'.describeClosers [.endWord, .elifWord, .elseWord]) t')
  warning_restore {t t' : Token} : token t t' → t.kind = .identifier →
    warning (.restoreWithoutBackup t.lexeme t.span) (.restoreWithoutBackup t'.lexeme t'.span)

namespace Pairing

variable (P : Pairing)

/-- Counterparts that are names or literals. -/
def Operands (t t' : Token) : Prop := P.token t t' ∧ t.kind.isOperand = true

/-- Counterparts that are names. -/
def Names (t t' : Token) : Prop := P.token t t' ∧ t.kind = .identifier

/-- Indices that both readings find, or neither. -/
def Indices (i i' : Option Token) : Prop := Option.Rel P.Operands i i'

variable {P} {t t' : Token}

theorem Names.operands (h : P.Names t t') : P.Operands t t' := ⟨h.1, by rw [h.2]; rfl⟩

theorem Operands.lexeme_eq (h : P.Operands t t') : t'.lexeme = P.rename t.lexeme :=
  P.lexeme_eq h.1 h.2

theorem Operands.kind_eq (h : P.Operands t t') : t'.kind = t.kind := P.kind_eq h.1

/-- The text of an operand that is no name is a literal, which stays. -/
theorem Operands.fixed_eq (h : P.Operands t t') (hkind : t.kind ≠ .identifier) :
    t'.lexeme = t.lexeme := by
  refine P.fixed_eq h.1 (.inl ?_)
  obtain ⟨-, hoperand⟩ := h
  revert hkind hoperand
  cases t.kind <;> simp [TokenKind.isOperand]

theorem Indices.lexemes_eq {i i' : Option Token} (h : P.Indices i i') :
    i'.map Token.lexeme = (i.map Token.lexeme).map P.rename := by
  cases h with
  | none => rfl
  | some h => exact congrArg some h.lexeme_eq

theorem Names.lexeme_eq (h : P.Names t t') : t'.lexeme = P.rename t.lexeme := h.operands.lexeme_eq

/-! ## Errors -/

theorem error_const (h : P.token t t') {fault : Fault} (hown : fault.isImport = false) :
    P.error (.atToken fault t) (.atToken fault t') :=
  P.error_at (fun _ _ => fault) (fun _ _ => Prod.ext rfl hown) h (P.text_rename "")
    (P.text_rename "")

/-- A fault that mentions one text. In the second reading it mentions the text
that takes its place. -/
theorem error_text {x x' : String} (fault : String → Fault) (h : P.token t t') (hx : P.text x x')
    (hfault : Fault.IsWorded fun x _ => fault x) :
    P.error (.atToken (fault x) t) (.atToken (fault x') t') :=
  P.error_at (fun x _ => fault x) hfault h hx (P.text_rename "")

/-- Something else should stand here. What is expected is said in words that
do not depend on the text; what was found is at most a text of the token. -/
theorem error_unexpected (h : P.token t t') (expected : String) :
    P.error (.unexpected expected t) (.unexpected expected t') := by
  unfold CompileError.unexpected
  rw [P.kind_eq h]
  split
  · exact error_const h rfl
  · exact error_text (.unexpectedToken expected) h (P.text_lexeme h) fun _ _ => rfl

/-! ## Rules of the scope -/

/-- **What a rule finds in the two readings**: related results, or related
faults. -/
inductive Rules (P : Pairing) {α β : Type} (R : α → β → Prop) :
    Except CompileError α → Except CompileError β → Prop
  | ok {a : α} {b : β} (h : R a b) : Rules P R (.ok a) (.ok b)
  | error {e e' : CompileError} (h : P.error e e') : Rules P R (.error e) (.error e')

variable {α β γ δ : Type} {R : α → β → Prop} {Q : γ → δ → Prop}

/-- Rules are asked one after the other, and the first fault ends both
readings. -/
theorem Rules.bind {x : Except CompileError α} {y : Except CompileError β}
    {f : α → Except CompileError γ} {g : β → Except CompileError δ} (hx : P.Rules R x y)
    (hf : ∀ a b, R a b → P.Rules Q (f a) (g b)) : P.Rules Q (x >>= f) (y >>= g) := by
  cases hx with
  | ok h => exact hf _ _ h
  | error h => exact .error h

/-- Both readings take the same branch: what is asked does not depend on
names. -/
theorem Rules.ite {c : Prop} [Decidable c] {x x₁ : Except CompileError α}
    {y y₁ : Except CompileError β} (h : P.Rules R x y) (h₁ : P.Rules R x₁ y₁) :
    P.Rules R (if c then x else x₁) (if c then y else y₁) := by
  split
  · exact h
  · exact h₁

/-- A value of a wrong type. The message mentions the variable and what was
found, and both of them take their counterparts in the second reading. -/
theorem rules_mismatch {x x' y y' : String} (h : P.token t t') (hx : P.text x x')
    (hy : P.text y y') (expected : String) (found : String → String) :
    P.Rules R (Scope.mismatch t x expected (found y)) (Scope.mismatch t' x' expected (found y')) :=
  .error (P.error_at (fun x y => .typeMismatch x expected (found y))
    (fun _ _ => rfl) h hx hy)

theorem rules_mismatch_const {x x' : String} (h : P.token t t') (hx : P.text x x')
    (expected found : String) :
    P.Rules R (Scope.mismatch t x expected found) (Scope.mismatch t' x' expected found) :=
  rules_mismatch h hx (P.text_rename "") expected fun _ => found

section Rules

open Scope

variable {s : Scope}

/-- A name means the same to both readings, up to the names in its meaning. -/
theorem resolve?_counterpart (h : P.Operands t t') :
    (s.rename P.rename).resolve? t'.lexeme =
      (s.resolve? t.lexeme).map (Meaning.rename P.rename) := by
  rw [h.lexeme_eq, resolve?_rename P.rename_injective]

theorem rules_undeclared (h : P.token t t') :
    P.Rules R (.error (.atToken (.undeclared t.lexeme) t))
      (.error (.atToken (.undeclared t'.lexeme) t')) :=
  .error (error_text .undeclared h (P.text_lexeme h) fun _ _ => rfl)

/-- **A name has a meaning in both scopes or in neither**, and the meanings
are the same up to names. -/
theorem rules_requireMeaning (h : P.Operands t t') :
    P.Rules (fun m m' => m' = m.rename P.rename) (s.requireMeaning t)
      ((s.rename P.rename).requireMeaning t') := by
  unfold requireMeaning
  rw [resolve?_counterpart h]
  cases s.resolve? t.lexeme with
  | some m => exact .ok rfl
  | none => exact rules_undeclared h.1

/-- An operand is known in both scopes or in neither. Literals are known in
any scope. -/
theorem rules_requireDeclared (h : P.Operands t t') :
    P.Rules Eq (s.requireDeclared t) ((s.rename P.rename).requireDeclared t') := by
  unfold requireDeclared
  rw [resolve?_counterpart h, h.kind_eq, Option.isNone_map]
  split
  · exact rules_undeclared h.1
  · exact .ok rfl

/-- What may be stored is decided alike. By cases on whether the operand is a
literal: its class stays, and a name has the same type in both scopes. -/
theorem rules_checkValue {x x' : String} (hx : P.text x x') (type : ValueType)
    (h : P.Operands t t') :
    P.Rules Eq (s.checkValue x type t) ((s.rename P.rename).checkValue x' type t') := by
  have hlexeme := P.text_lexeme h.1
  have hscalar (found : ValueType) : P.Rules Eq
      (if found = type then .ok () else
        mismatch t x (quoted type) ("'" ++ t.lexeme ++ "' of type " ++ quoted found))
      (if found = type then .ok () else
        mismatch t' x' (quoted type) ("'" ++ t'.lexeme ++ "' of type " ++ quoted found)) :=
    .ite (.ok rfl)
      (rules_mismatch h.1 hx hlexeme _ fun y => "'" ++ y ++ "' of type " ++ quoted found)
  unfold checkValue
  rw [P.classify_eq h.1 h.2]
  dsimp only
  split
  · next literal _ =>
    exact .ite (.ok rfl)
      (rules_mismatch h.1 hx hlexeme _ fun y => literal.describe ++ " '" ++ y ++ "'")
  · refine (rules_requireMeaning h).bind ?_
    rintro m _ rfl
    match m with
    | .bound found => exact hscalar found
    | .declared ⟨_, found, .scalar _⟩ => exact hscalar found
    | .declared ⟨name, _, .array _ shape⟩ =>
      exact rules_mismatch h.1 hx (P.text_rename name) _ fun y =>
        "array '" ++ y ++ "' of size " ++ toString shape.size
    | .declared ⟨name, _, .function _⟩ =>
      exact rules_mismatch h.1 hx (P.text_rename name) _ fun y => "function '" ++ y ++ "'"

/-- Which index selects an element is decided alike. A literal stays, so it is
compared with the same size. -/
theorem rules_checkIndex {x x' : String} (hx : P.text x x') (shape : ArrayShape)
    (h : P.Operands t t') :
    P.Rules Eq (s.checkIndex x shape t) ((s.rename P.rename).checkIndex x' shape t') := by
  unfold checkIndex
  rw [h.kind_eq]
  split
  · exact rules_requireDeclared h
  · next hkind =>
    rw [h.fixed_eq hkind]
    split
    · exact .ite (.ok rfl) (.error (error_text (.indexOutOfRange · _ _) h.1 hx fun _ _ => rfl))
    · exact .error (error_const h.1 rfl)

theorem rules_notAnArray (h : P.token t t') :
    P.Rules R (.error (.atToken (.notAnArray t.lexeme) t))
      (.error (.atToken (.notAnArray t'.lexeme) t')) :=
  .error (error_text .notAnArray h (P.text_lexeme h) fun _ _ => rfl)

/-- What may be printed is decided alike, with an index or without. -/
theorem rules_checkOutput {i i' : Option Token} (h : P.Operands t t') (hi : P.Indices i i') :
    P.Rules Eq (s.checkOutput t i) ((s.rename P.rename).checkOutput t' i') := by
  unfold checkOutput
  cases hi with
  | none => exact .ok rfl
  | some hi =>
    dsimp only
    rw [resolve?_counterpart h]
    match s.resolve? t.lexeme with
    | none => exact rules_notAnArray h.1
    | some (.bound _) => exact rules_notAnArray h.1
    | some (.declared ⟨_, _, .scalar _⟩) => exact rules_notAnArray h.1
    | some (.declared ⟨_, _, .function _⟩) => exact rules_notAnArray h.1
    | some (.declared ⟨_, _, .array _ shape⟩) => exact rules_checkIndex (P.text_lexeme h.1) shape hi

theorem rules_assignToConstant (h : P.token t t') (name : String) :
    P.Rules R (.error (.atToken (.assignToConstant name) t))
      (.error (.atToken (.assignToConstant (P.rename name)) t')) :=
  .error (error_text .assignToConstant h (P.text_rename name) fun _ _ => rfl)

theorem rules_checkTarget {i i' : Option Token} (h : P.Operands t t') (hi : P.Indices i i') :
    P.Rules Eq (s.checkTarget t i) ((s.rename P.rename).checkTarget t' i') := by
  have hlexeme := P.text_lexeme h.1
  unfold checkTarget
  refine (rules_requireMeaning h).bind ?_
  rintro m _ rfl
  cases m with
  | bound type =>
    cases hi with
    | none => exact .ok rfl
    | some _ => exact rules_notAnArray h.1
  | declared symbol =>
    dsimp only [Meaning.rename]
    rw [Symbol.isConstant_rename, Symbol.shape?_rename]
    split
    · exact rules_assignToConstant h.1 symbol.name
    · cases symbol.shape? with
      | none =>
        cases hi with
        | none => exact .ok rfl
        | some _ => exact rules_notAnArray h.1
      | some shape =>
        cases hi with
        | none => exact rules_mismatch_const h.1 hlexeme _ _
        | some hi => exact (rules_checkIndex hlexeme shape hi).bind fun _ _ _ => .ok rfl

/-- A name is an array in both scopes or in neither, of the same shape. -/
theorem rules_requireArray (h : P.Operands t t') :
    P.Rules (fun a a' => a' = (a.1.rename P.rename, a.2)) (s.requireArray t)
      ((s.rename P.rename).requireArray t') := by
  unfold requireArray
  rw [resolve?_counterpart h, h.kind_eq]
  match s.resolve? t.lexeme with
  | none =>
    exact .ite (rules_undeclared h.1) (rules_notAnArray h.1)
  | some (.bound _) => exact rules_notAnArray h.1
  | some (.declared symbol) =>
    dsimp only [Option.map_some, Meaning.rename]
    rw [Symbol.shape?_rename]
    cases symbol.shape? with
    | some shape => exact .ok rfl
    | none =>
      exact .error (error_text .notAnArray h.1 (P.text_rename symbol.name) fun _ _ => rfl)

theorem rules_elementValue {x x' : String} {i i' : Token} (hx : P.text x x') (type : ValueType)
    (h : P.Operands t t') (hi : P.Operands i i') :
    P.Rules (fun v v' => v' = v.rename P.rename) (s.elementValue x type t i)
      ((s.rename P.rename).elementValue x' type t' i') := by
  unfold elementValue
  refine (rules_requireArray h).bind ?_
  rintro ⟨symbol, shape⟩ _ rfl
  have hname := P.text_rename symbol.name
  refine .ite (rules_mismatch h.1 hx hname _ fun y =>
    "element of '" ++ y ++ "' of type " ++ quoted symbol.type) ?_
  refine (rules_checkIndex hname shape hi).bind fun _ _ _ => ?_
  rw [hi.kind_eq]
  split
  · rw [hi.lexeme_eq]
    exact .ok rfl
  · next hkind =>
    rw [hi.fixed_eq hkind]
    dsimp only
    split
    · exact .ok rfl
    · exact .error (error_text (.indexOutOfRange · _ _) hi.1 hname fun _ _ => rfl)

theorem rules_checkBackup (h : P.Operands t t') :
    P.Rules Eq (s.checkBackup t) ((s.rename P.rename).checkBackup t') := by
  have hlexeme := P.text_lexeme h.1
  unfold checkBackup
  refine (rules_requireMeaning h).bind ?_
  rintro m _ rfl
  have hsaved (constant : Bool) : P.Rules Eq
      (if m.type.hasBackup then .ok constant else
        mismatch t t.lexeme "a numeric or bool variable" ("type " ++ quoted m.type))
      (if (m.rename P.rename).type.hasBackup then .ok constant else
        mismatch t' t'.lexeme "a numeric or bool variable"
          ("type " ++ quoted (m.rename P.rename).type)) := by
    rw [Meaning.type_rename]
    exact .ite (.ok rfl) (rules_mismatch_const h.1 hlexeme _ _)
  have hrefused := rules_mismatch_const (R := fun b b' : Bool => b = b') h.1 hlexeme
    "a scalar variable"
  match m with
  | .bound _ => exact hsaved false
  | .declared ⟨_, _, .scalar constant⟩ => exact hsaved constant
  | .declared ⟨_, _, .array _ _⟩ => exact (hrefused "an array").bind fun b _ h => h ▸ hsaved b
  | .declared ⟨_, _, .function _⟩ => exact (hrefused "a function").bind fun b _ h => h ▸ hsaved b

theorem rules_checkRestore (h : P.Operands t t') :
    P.Rules Eq (s.checkRestore t) ((s.rename P.rename).checkRestore t') := by
  unfold checkRestore
  refine (rules_checkBackup h).bind ?_
  rintro constant _ rfl
  rw [h.lexeme_eq]
  exact .ite (rules_assignToConstant h.1 t.lexeme) (.ok rfl)

theorem rules_checkResult (op : Arithmetic) (h : P.Operands t t') :
    P.Rules Eq (s.checkResult op t) ((s.rename P.rename).checkResult op t') := by
  have hlexeme := P.text_lexeme h.1
  unfold checkResult
  refine (rules_requireMeaning h).bind ?_
  rintro m _ rfl
  have hheld : P.Rules Eq
      (if holdsResult op m.type then .ok () else
        mismatch t t.lexeme ("a numeric variable for '" ++ op.mark ++ "'")
          ("type " ++ quoted m.type))
      (if holdsResult op (m.rename P.rename).type then .ok () else
        mismatch t' t'.lexeme ("a numeric variable for '" ++ op.mark ++ "'")
          ("type " ++ quoted (m.rename P.rename).type)) := by
    rw [Meaning.type_rename]
    exact .ite (.ok rfl) (rules_mismatch_const h.1 hlexeme _ _)
  cases m with
  | bound type => exact hheld
  | declared symbol =>
    have hconstant := rules_assignToConstant (R := fun _ _ : Unit => True) h.1 symbol.name
    have harray := rules_mismatch_const (R := fun _ _ : Unit => True) h.1
      (P.text_rename symbol.name) "a numeric variable" "an array"
    exact .ite (hconstant.bind fun _ _ _ => hheld) (.ite (harray.bind fun _ _ _ => hheld) hheld)

theorem rules_checkCallResult {x x' : String} (hx : P.text x x') (type : ValueType)
    (h : P.Operands t t') :
    P.Rules Eq (s.checkCallResult x type t) ((s.rename P.rename).checkCallResult x' type t') := by
  unfold checkCallResult
  rw [h.lexeme_eq, lookup?_rename P.rename_injective]
  cases s.lookup? t.lexeme with
  | none => exact .ok rfl
  | some symbol =>
    have hname := P.text_rename symbol.name
    exact .ite
      (.ite (.ok rfl) (rules_mismatch h.1 hx hname _ fun y =>
        "result of '" ++ y ++ "' of type " ++ quoted symbol.type))
      (.error (error_text (.unexpectedToken "a function name") h.1 hname fun _ _ => rfl))

/-- The number of arguments is the same in both readings, and so is the number
of parameters of the function. -/
theorem rules_checkArity (h : P.Operands t t') (call : Call) :
    P.Rules Eq (s.checkArity t call)
      ((s.rename P.rename).checkArity t' (call.rename P.rename)) := by
  have harity : ((s.rename P.rename).lookup? t'.lexeme).bind Symbol.arity? =
      (s.lookup? t.lexeme).bind Symbol.arity? := by
    rw [h.lexeme_eq, lookup?_rename P.rename_injective, Option.bind_map]
    rfl
  have hlength : (call.rename P.rename).arguments.length = call.arguments.length :=
    List.length_map P.rename
  unfold checkArity
  rw [harity, hlength]
  split
  · exact .ok rfl
  · exact .ite (.ok rfl)
      (.error (error_text (.argumentCount · _ _) h.1 (P.text_rename _) fun _ _ => rfl))

/-- What a function may return is decided alike. The type it has to return is
part of its head, which both readings have. -/
theorem rules_checkReturn {value? value?' : Option Token} (signature : Signature)
    (h : P.token t t') (hvalue : P.Indices value? value?') :
    P.Rules Eq (s.checkReturn signature t value?)
      ((s.rename P.rename).checkReturn (signature.rename P.rename) t' value?') := by
  have hname := P.text_rename signature.name
  unfold checkReturn
  dsimp only [Signature.rename]
  cases hvalue with
  | none =>
    cases signature.returnType
    case empty => exact .ok rfl
    all_goals exact rules_mismatch_const h hname _ _
  | some hvalue =>
    cases signature.returnType
    case empty =>
      exact rules_mismatch hvalue.1 hname (P.text_lexeme hvalue.1) _ fun y => "'" ++ y ++ "'"
    all_goals exact rules_checkValue hname _ hvalue

end Rules

end Pairing

end MapleCompiler
