import MapleCompiler.Proofs.Reading.Primitive
import MapleCompiler.Proofs.Scope.Rules

/-!
# What the readers of statements accept

One lemma for each reader of a part or of a statement without a list: it
succeeds exactly if certain tokens stand here and the rules of the scope hold,
and then its result and the state after it are determined. Both directions are
used: from left to right to see what an accepted text holds, from right to left
to see that a text is accepted.

States after tokens were taken are written with `ReadState.next`.
-/

namespace MapleCompiler.Read

variable {s s' : ReadState}

/-! ## Parts of statements -/

theorem operand_eq_ok {expected : String} {t : Token} :
    operand expected s = .ok t s' ↔
      s.current.kind.isOperand = true ∧ t = s.current ∧ s' = s.next := by
  unfold operand
  rw [bind_of_ok (peek_apply s)]
  by_cases h : s.current.kind.isOperand = true
  · simp [h, eq_comm]
  · simp [h]

/-- The token that is looked at is an operand with a meaning. -/
def SeesKnown (s : ReadState) : Prop :=
  s.current.kind.isOperand = true ∧
    (s.current.kind = .identifier → s.scope.isDefined s.current.lexeme = true)

theorem knownOperand_eq_ok {expected : String} {t : Token} :
    knownOperand expected s = .ok t s' ↔ SeesKnown s ∧ t = s.current ∧ s' = s.next := by
  unfold knownOperand SeesKnown
  simp only [bind_eq_ok, operand_eq_ok, rule_eq_ok, Scope.requireDeclared_eq_ok, pure_apply,
    EStateM.Result.ok.injEq]
  constructor
  · rintro ⟨_, _, ⟨ho, rfl, rfl⟩, _, _, ⟨hd, rfl⟩, rfl, rfl⟩
    exact ⟨⟨ho, by simpa using hd⟩, rfl, rfl⟩
  · rintro ⟨⟨ho, hd⟩, rfl, rfl⟩
    exact ⟨_, _, ⟨ho, rfl, rfl⟩, ⟨⟩, _, ⟨by simpa using hd, rfl⟩, rfl, rfl⟩

/-- An index is an operand in brackets. Without a bracket there is none, and
nothing is taken. -/
theorem index?_eq_ok {index : Option Token} :
    index? s = .ok index s' ↔
      (s.current.kind ≠ .leftBracket ∧ index = none ∧ s' = s) ∨
      (s.current.kind = .leftBracket ∧ s.next.current.kind.isOperand = true ∧
        s.next.next.current.kind = .rightBracket ∧ index = some s.next.current ∧
        s' = s.next.next.next) := by
  unfold index?
  rw [bind_eq_ok]
  constructor
  · rintro ⟨_, _, hb, h⟩
    obtain ⟨hk, rfl, rfl⟩ | ⟨hk, rfl, rfl⟩ := accept_eq_ok.mp hb
    · simp only [if_true, bind_eq_ok, operand_eq_ok, expect_eq_ok, pure_apply,
        EStateM.Result.ok.injEq] at h
      obtain ⟨_, _, ⟨ho, rfl, rfl⟩, _, _, ⟨hr, rfl, rfl⟩, rfl, rfl⟩ := h
      exact .inr ⟨hk, ho, hr, rfl, rfl⟩
    · obtain ⟨rfl, rfl⟩ := EStateM.Result.ok.inj h
      exact .inl ⟨hk, rfl, rfl⟩
  · rintro (⟨hk, rfl, rfl⟩ | ⟨hk, ho, hr, rfl, rfl⟩)
    · exact ⟨false, s', accept_eq_ok.mpr (.inr ⟨hk, rfl, rfl⟩), rfl⟩
    · refine ⟨true, s.next, accept_eq_ok.mpr (.inl ⟨hk, rfl, rfl⟩), ?_⟩
      rw [if_pos rfl, bind_of_ok (operand_eq_ok.mpr ⟨ho, rfl, rfl⟩),
        bind_of_ok (expect_eq_ok.mpr ⟨hr, rfl, rfl⟩), pure_apply]

theorem comparison_eq_ok {op : Comparison} :
    comparison s = .ok op s' ↔ s.current.kind = .comparison op ∧ s' = s.next := by
  unfold comparison
  rw [bind_of_ok (peek_apply s)]
  cases s.current.kind with
  | comparison op' =>
    dsimp only
    rw [bind_of_ok (advance_apply s), pure_apply]
    simp [eq_comm]
  | _ => simp

theorem condition_eq_ok {c : Condition} :
    condition s = .ok c s' ↔
      SeesKnown s ∧ s.next.current.kind = .comparison c.op ∧ SeesKnown s.next.next ∧
        c.left = s.current.lexeme ∧ c.right = s.next.next.current.lexeme ∧
        s' = s.next.next.next := by
  unfold condition
  simp only [bind_eq_ok, knownOperand_eq_ok, comparison_eq_ok, pure_apply, EStateM.Result.ok.injEq]
  constructor
  · rintro ⟨_, _, ⟨hl, rfl, rfl⟩, op, _, ⟨ho, rfl⟩, _, _, ⟨hr, rfl, rfl⟩, rfl, rfl⟩
    exact ⟨hl, ho, hr, rfl, rfl, rfl⟩
  · rintro ⟨hl, ho, hr, hleft, hright, rfl⟩
    refine ⟨_, _, ⟨hl, rfl, rfl⟩, c.op, _, ⟨ho, rfl⟩, _, _, ⟨hr, rfl, rfl⟩, ?_, rfl⟩
    rw [← hleft, ← hright]

theorem bounds_eq_ok {start stop : String} :
    bounds s = .ok (start, stop) s' ↔
      SeesKnown s ∧
        ((s.next.current.kind = .dotDot ∧ SeesKnown s.next.next ∧ start = s.current.lexeme ∧
            stop = s.next.next.current.lexeme ∧ s' = s.next.next.next) ∨
          (s.next.current.kind ≠ .dotDot ∧ start = "0" ∧ stop = s.current.lexeme ∧
            s' = s.next)) := by
  unfold bounds
  simp only [bind_eq_ok, knownOperand_eq_ok]
  constructor
  · rintro ⟨_, _, ⟨hf, rfl, rfl⟩, _, _, hb, h⟩
    refine ⟨hf, ?_⟩
    obtain ⟨hk, rfl, rfl⟩ | ⟨hk, rfl, rfl⟩ := accept_eq_ok.mp hb
    · simp only [if_true, bind_eq_ok, knownOperand_eq_ok, pure_apply, EStateM.Result.ok.injEq,
        Prod.mk.injEq] at h
      obtain ⟨_, _, ⟨hl, rfl, rfl⟩, ⟨rfl, rfl⟩, rfl⟩ := h
      exact .inl ⟨hk, hl, rfl, rfl, rfl⟩
    · cases h
      exact .inr ⟨hk, rfl, rfl, rfl⟩
  · rintro ⟨hf, ⟨hk, hl, rfl, rfl, rfl⟩ | ⟨hk, rfl, rfl, rfl⟩⟩
    · refine ⟨_, _, ⟨hf, rfl, rfl⟩, true, _, accept_eq_ok.mpr (.inl ⟨hk, rfl, rfl⟩), ?_⟩
      rw [if_pos rfl, bind_of_ok (knownOperand_eq_ok.mpr ⟨hl, rfl, rfl⟩), pure_apply]
    · exact ⟨_, _, ⟨hf, rfl, rfl⟩, false, _, accept_eq_ok.mpr (.inr ⟨hk, rfl, rfl⟩), rfl⟩

theorem valueType?_eq_some {kind : TokenKind} {type : ValueType} :
    kind.valueType? = some type ↔ kind = .type type := by
  cases kind <;> simp [TokenKind.valueType?]

theorem returnType_eq_ok {type : ValueType} :
    returnType s = .ok type s' ↔ s.current.kind = .type type ∧ s' = s.next := by
  unfold returnType
  rw [bind_of_ok (sees_apply _ s), ← valueType?_eq_some]
  by_cases he : s.current.kind = .eof
  · simp [he, TokenKind.valueType?]
  · rw [if_neg (by simpa using he), bind_of_ok (advance_apply s)]
    cases s.current.kind.valueType? with
    | none => simp
    | some type' => simp [eq_comm]

theorem storableType_eq_ok {type : ValueType} :
    storableType s = .ok type s' ↔
      s.current.kind = .type type ∧ type.isStorable = true ∧ s' = s.next := by
  unfold storableType
  rw [bind_of_ok (sees_apply _ s), ← valueType?_eq_some]
  by_cases he : s.current.kind = .eof
  · simp [he, TokenKind.valueType?]
  · rw [if_neg (by simpa using he), bind_of_ok (advance_apply s)]
    cases s.current.kind.valueType? with
    | none => simp
    | some type' =>
      dsimp only
      constructor
      · intro h
        split at h
        · next hs => cases h; exact ⟨rfl, hs, rfl⟩
        · cases h
      · rintro ⟨ht, hs, rfl⟩
        obtain rfl := Option.some.inj ht
        rw [if_pos hs, pure_apply]

theorem arraySize_eq_ok {size : Nat} :
    arraySize s = .ok size s' ↔
      s.current.kind = .number ∧ Literal.index? s.current.lexeme = some size ∧ 0 < size ∧
        s' = s.next := by
  unfold arraySize
  rw [bind_eq_ok]
  constructor
  · rintro ⟨_, _, he, h⟩
    obtain ⟨hk, rfl, rfl⟩ := expect_eq_ok.mp he
    match hi : Literal.index? s.current.lexeme with
    | none => rw [hi] at h; cases h
    | some 0 => rw [hi] at h; cases h
    | some (n + 1) =>
      rw [hi] at h
      cases h
      exact ⟨hk, rfl, Nat.succ_pos n, rfl⟩
  · rintro ⟨hk, hi, hs, rfl⟩
    obtain ⟨n, rfl⟩ := Nat.exists_eq_succ_of_ne_zero (Nat.ne_of_gt hs)
    refine ⟨_, _, expect_eq_ok.mpr ⟨hk, rfl, rfl⟩, ?_⟩
    rw [hi]
    rfl

theorem arrayValue_eq_ok {name : String} {type : ValueType} {size : Nat} {values : List String}
    {x : String} :
    arrayValue name type size values s = .ok x s' ↔
      s.current.kind.isLiteral = true ∧ s.scope.Stores type s.current.lexeme ∧
        values.length ≠ size ∧ x = s.current.lexeme ∧ s' = s.next := by
  unfold arrayValue
  rw [bind_of_ok (peek_apply s)]
  by_cases hl : s.current.kind.isLiteral = true
  · rw [if_pos hl, bind_of_ok (advance_apply s)]
    simp only [bind_eq_ok, rule_eq_ok, Scope.checkValue_eq_ok]
    constructor
    · rintro ⟨_, _, ⟨hv, rfl⟩, h⟩
      split at h
      · cases h
      · next hroom => cases h; exact ⟨hl, by simpa using hv, hroom, rfl, rfl⟩
    · rintro ⟨-, hv, hroom, rfl, rfl⟩
      refine ⟨⟨⟩, _, ⟨by simpa using hv, rfl⟩, ?_⟩
      rw [if_neg hroom, pure_apply]
  · rw [if_neg hl]
    simp [hl]

/-! ## Statements -/

theorem output_eq_ok {node : Node} :
    output s = .ok node s' ↔
      SeesKnown s.next ∧ ∃ index, index? s.next.next = .ok index s' ∧
        s'.scope.checkOutput s.next.current index = .ok () ∧
        node = .output s.next.current.lexeme (index.map Token.lexeme) := by
  unfold output
  rw [bind_of_ok (advance_apply s)]
  simp only [bind_eq_ok, knownOperand_eq_ok, rule_eq_ok, pure_apply, EStateM.Result.ok.injEq]
  constructor
  · rintro ⟨_, _, ⟨hk, rfl, rfl⟩, index, _, hi, _, _, ⟨hc, rfl⟩, rfl, rfl⟩
    exact ⟨hk, index, hi, hc, rfl⟩
  · rintro ⟨hk, index, hi, hc, rfl⟩
    exact ⟨_, _, ⟨hk, rfl, rfl⟩, index, _, hi, ⟨⟩, _, ⟨hc, rfl⟩, rfl, rfl⟩

theorem save_eq_ok {node : Node} :
    save s = .ok node s' ↔
      s.next.current.kind = .identifier ∧ (∃ m, s.scope.Saves s.next.current.lexeme m) ∧
        node = .save s.next.current.lexeme ∧
        s' = { s.next.next with scope := s.scope.recordBackup s.next.current.lexeme } := by
  unfold save identifier
  rw [bind_of_ok (advance_apply s)]
  simp only [bind_eq_ok, expect_eq_ok, rule_eq_ok, Scope.checkBackup_eq_ok, modifyScope_apply,
    pure_apply, EStateM.Result.ok.injEq]
  constructor
  · rintro ⟨_, _, ⟨hk, rfl, rfl⟩, _, _, ⟨⟨m, hm, -⟩, rfl⟩, _, _, ⟨-, rfl⟩, rfl, rfl⟩
    exact ⟨hk, ⟨m, by simpa using hm⟩, rfl, by simp⟩
  · rintro ⟨hk, ⟨m, hm⟩, rfl, rfl⟩
    exact ⟨_, _, ⟨hk, rfl, rfl⟩, _, _, ⟨⟨m, by simpa using hm, rfl⟩, rfl⟩, ⟨⟩, _,
      ⟨trivial, by simp⟩, rfl, rfl⟩

theorem restore_eq_ok {node : Node} :
    restore s = .ok node s' ↔
      s.next.current.kind = .identifier ∧
        (∃ m, s.scope.Saves s.next.current.lexeme m ∧ m.isChangeable = true) ∧
        node = .restore s.next.current.lexeme ∧
        s' = if s.scope.hasBackup s.next.current.lexeme then s.next.next
          else { s.next.next with warnings := s.warnings ++
            [.restoreWithoutBackup s.next.current.lexeme s.next.current.span] } := by
  unfold restore identifier
  rw [bind_of_ok (advance_apply s)]
  simp only [bind_eq_ok, expect_eq_ok, rule_eq_ok, Scope.checkRestore_eq_ok, modify_apply,
    pure_apply, EStateM.Result.ok.injEq]
  constructor
  · rintro ⟨_, _, ⟨hk, rfl, rfl⟩, _, _, ⟨⟨m, hm⟩, rfl⟩, _, _, ⟨-, rfl⟩, rfl, rfl⟩
    exact ⟨hk, ⟨m, by simpa using hm⟩, rfl, by simp⟩
  · rintro ⟨hk, ⟨m, hm⟩, rfl, rfl⟩
    exact ⟨_, _, ⟨hk, rfl, rfl⟩, ⟨⟩, _, ⟨⟨m, by simpa using hm⟩, rfl⟩, ⟨⟩, _,
      ⟨trivial, by simp⟩, rfl, rfl⟩

/-- A value follows `rtn` if an operand does that begins no call. -/
def SeesReturned (s : ReadState) : Prop :=
  s.current.kind.isOperand = true ∧ s.startsCall = false

instance (s : ReadState) : Decidable (SeesReturned s) := inferInstanceAs (Decidable (_ ∧ _))

theorem giveBack_eq_ok {ctx : Context} {node : Node} :
    giveBack ctx s = .ok node s' ↔
      ∃ signature value?, ctx.function? = some signature ∧
        value? = (if SeesReturned s.next then some s.next.current.lexeme else none) ∧
        s.scope.Returns signature.returnType value? ∧ node = .giveBack value? ∧
        s' = if SeesReturned s.next then s.next.next else s.next := by
  unfold giveBack
  rw [bind_of_ok (advance_apply s)]
  cases ctx.function? with
  | none => simp
  | some signature =>
    have hb : (s.next.current.kind.isOperand && !s.next.startsCall) =
        decide (SeesReturned s.next) := by
      rw [Bool.eq_iff_iff, decide_eq_true_iff]
      simp [SeesReturned]
    simp only [bind_of_ok (peek_apply s.next), bind_of_ok (seesCall_apply s.next), hb]
    by_cases hv : SeesReturned s.next
    · simp only [hv, decide_true, if_true, map_eq_bind, bind_eq_ok, operand_eq_ok, pure_apply,
        EStateM.Result.ok.injEq, rule_eq_ok, Scope.checkReturn_eq_ok]
      constructor
      · rintro ⟨_, _, ⟨_, _, ⟨ho, rfl, rfl⟩, rfl, rfl⟩, _, _, ⟨hr, rfl⟩, rfl, rfl⟩
        exact ⟨signature, _, rfl, rfl, by simpa using hr, rfl, rfl⟩
      · rintro ⟨_, _, hs, rfl, hr, rfl, rfl⟩
        obtain rfl := Option.some.inj hs
        exact ⟨_, _, ⟨_, _, ⟨hv.1, rfl, rfl⟩, rfl, rfl⟩, ⟨⟩, _, ⟨by simpa using hr, rfl⟩, rfl, rfl⟩
    · simp only [hv, decide_false, Bool.false_eq_true, if_false, bind_eq_ok, pure_apply,
        EStateM.Result.ok.injEq, rule_eq_ok, Scope.checkReturn_eq_ok]
      constructor
      · rintro ⟨_, _, ⟨rfl, rfl⟩, _, _, ⟨hr, rfl⟩, rfl, rfl⟩
        exact ⟨signature, _, rfl, rfl, by simpa using hr, rfl, rfl⟩
      · rintro ⟨_, _, hs, rfl, hr, rfl, rfl⟩
        obtain rfl := Option.some.inj hs
        exact ⟨_, _, ⟨rfl, rfl⟩, ⟨⟩, _, ⟨by simpa using hr, rfl⟩, rfl, rfl⟩

theorem call_eq_ok {c : Call} :
    call s = .ok c s' ↔
      s.current.kind = .identifier ∧ s.next.current.kind = .colon ∧
        c.function = s.current.lexeme ∧
        listUntil .colon "',' or ':'" (fun _ => argument) s.next.next = .ok c.arguments s' := by
  unfold call identifier
  simp only [bind_eq_ok, expect_eq_ok, pure_apply, EStateM.Result.ok.injEq]
  constructor
  · rintro ⟨_, _, ⟨hname, rfl, rfl⟩, _, _, ⟨hcolon, rfl, rfl⟩, arguments, _, hlist, rfl, rfl⟩
    exact ⟨hname, hcolon, rfl, hlist⟩
  · rintro ⟨hname, hcolon, hfunction, hlist⟩
    refine ⟨_, _, ⟨hname, rfl, rfl⟩, _, _, ⟨hcolon, rfl, rfl⟩, c.arguments, _, hlist, ?_, rfl⟩
    rw [← hfunction]

/-- A declaration is read if its name is new and what comes after it fits its
type. The name is declared after that was checked. -/
theorem declaration_eq_ok {node : Node} :
    declaration s = .ok node s' ↔
      ∃ changeable s₁ type init role s₂, accept .ch s.next = .ok changeable s₁ ∧
        s₁.current.kind = .type type ∧ type.isStorable = true ∧
        s₁.next.current.kind = .identifier ∧
        s₁.scope.isDefined s₁.next.current.lexeme = false ∧
        initializer s₁.next.current.lexeme type (!changeable) s₁.next.next =
          .ok (init, role) s₂ ∧
        s₂.scope.isDefined s₁.next.current.lexeme = false ∧
        node = .declare ⟨type, s₁.next.current.lexeme, init, !changeable⟩ ∧
        s' = { s₂ with scope := s₂.scope.declared ⟨s₁.next.current.lexeme, type, role⟩ } := by
  unfold declaration identifier
  rw [bind_of_ok (advance_apply s)]
  simp only [bind_eq_ok, storableType_eq_ok, expect_eq_ok, get_apply, EStateM.Result.ok.injEq]
  constructor
  · rintro ⟨changeable, s₁, hch, type, _, ⟨htype, hstorable, rfl⟩, _, _, ⟨hname, rfl, rfl⟩, _, _,
      ⟨rfl, rfl⟩, h⟩
    split at h
    · cases h
    next hnew =>
    simp only [bind_eq_ok, introduce_eq_ok, Scope.declare_eq_ok, pure_apply,
      EStateM.Result.ok.injEq] at h
    obtain ⟨⟨init, role⟩, s₂, hinit, _, _, ⟨_, ⟨hnew', rfl⟩, rfl⟩, rfl, rfl⟩ := h
    exact ⟨changeable, s₁, type, init, role, s₂, hch, htype, hstorable, hname, by simpa using hnew,
      hinit, hnew', rfl, rfl⟩
  · rintro ⟨changeable, s₁, type, init, role, s₂, hch, htype, hstorable, hname, hnew, hinit, hnew',
      rfl, rfl⟩
    refine ⟨changeable, s₁, hch, type, _, ⟨htype, hstorable, rfl⟩, _, _, ⟨hname, rfl, rfl⟩, _, _,
      ⟨rfl, rfl⟩, ?_⟩
    rw [if_neg (by simpa using hnew), bind_of_ok hinit]
    dsimp only
    have hintroduce : introduce s₁.next.current
        (Scope.declare ⟨s₁.next.current.lexeme, type, role⟩) s₂ = .ok ()
        { s₂ with scope := s₂.scope.declared ⟨s₁.next.current.lexeme, type, role⟩ } :=
      introduce_eq_ok.mpr ⟨_, (Scope.declare_eq_ok _).mpr ⟨hnew', rfl⟩, rfl⟩
    rw [bind_of_ok hintroduce]
    rfl

/-- An assignment is read if its target may be changed and the value fits the
type of the target. -/
theorem assignment_eq_ok {node : Node} :
    assignment s = .ok node s' ↔
      s.next.current.kind = .identifier ∧ ∃ targetIndex s₁ valueIndex type value,
        index? s.next.next = .ok targetIndex s₁ ∧ s₁.current.kind.isOperand = true ∧
        index? s₁.next = .ok valueIndex s' ∧
        s'.scope.checkTarget s.next.current targetIndex = .ok type ∧
        (match valueIndex with
          | some index =>
            s'.scope.elementValue s.next.current.lexeme type s₁.current index = .ok value
          | none => s'.scope.Stores type s₁.current.lexeme ∧ value = .plain s₁.current.lexeme) ∧
        node = .assign ⟨s.next.current.lexeme, targetIndex.map Token.lexeme, value⟩ := by
  unfold assignment identifier
  rw [bind_of_ok (advance_apply s)]
  simp only [bind_eq_ok, expect_eq_ok, operand_eq_ok, rule_eq_ok]
  constructor
  · rintro ⟨_, _, ⟨hk, rfl, rfl⟩, targetIndex, s₁, hti, _, _, ⟨ho, rfl, rfl⟩, valueIndex, _, hvi,
      type, _, ⟨ht, rfl⟩, h⟩
    cases valueIndex with
    | some index =>
      simp only [bind_eq_ok, rule_eq_ok, pure_apply, EStateM.Result.ok.injEq] at h
      obtain ⟨value, _, ⟨hv, rfl⟩, rfl, rfl⟩ := h
      exact ⟨hk, targetIndex, s₁, some index, type, value, hti, ho, hvi, ht, hv, rfl⟩
    | none =>
      simp only [bind_eq_ok, rule_eq_ok, Scope.checkValue_eq_ok, pure_apply,
        EStateM.Result.ok.injEq] at h
      obtain ⟨_, _, ⟨hv, rfl⟩, _, _, ⟨rfl, rfl⟩, rfl, rfl⟩ := h
      exact ⟨hk, targetIndex, s₁, none, type, _, hti, ho, hvi, ht, ⟨hv, rfl⟩, rfl⟩
  · rintro ⟨hk, targetIndex, s₁, valueIndex, type, value, hti, ho, hvi, ht, hv, rfl⟩
    refine ⟨_, _, ⟨hk, rfl, rfl⟩, targetIndex, s₁, hti, _, _, ⟨ho, rfl, rfl⟩, valueIndex, _, hvi,
      type, _, ⟨ht, rfl⟩, ?_⟩
    cases valueIndex with
    | some index =>
      dsimp only at hv ⊢
      rw [bind_of_ok (rule_eq_ok.mpr ⟨hv, rfl⟩), pure_apply]
    | none =>
      obtain ⟨hv, rfl⟩ := hv
      have hc : s'.scope.checkValue s.next.current.lexeme type s₁.current = .ok () :=
        s'.scope.checkValue_eq_ok.mpr hv
      dsimp only
      rw [bind_of_ok (rule_eq_ok.mpr ⟨hc, rfl⟩)]
      rfl

/-- A calculation is read if its operands are known and the variable that
takes the result is a number that may be changed. -/
theorem calculation_eq_ok {op : Arithmetic} {node : Node} :
    calculation op s = .ok node s' ↔
      SeesKnown s.next ∧ SeesKnown s.next.next ∧
        ((s.next.next.next.current.kind = .into ∧
            s.next.next.next.next.current.kind = .identifier ∧
            s.scope.Receives op s.next.next.next.next.current.lexeme ∧
            node = .calculate ⟨op, s.next.current.lexeme, s.next.next.current.lexeme,
              some s.next.next.next.next.current.lexeme⟩ ∧
            s' = s.next.next.next.next.next) ∨
          (s.next.next.next.current.kind ≠ .into ∧ s.next.current.kind = .identifier ∧
            s.scope.Receives op s.next.current.lexeme ∧
            node = .calculate ⟨op, s.next.current.lexeme, s.next.next.current.lexeme, none⟩ ∧
            s' = s.next.next.next)) := by
  unfold calculation identifier
  rw [bind_of_ok (advance_apply s)]
  simp only [bind_eq_ok, knownOperand_eq_ok]
  constructor
  · rintro ⟨_, _, ⟨hl, rfl, rfl⟩, _, _, ⟨hr, rfl, rfl⟩, _, _, hb, h⟩
    refine ⟨hl, hr, ?_⟩
    obtain ⟨hk, rfl, rfl⟩ | ⟨hk, rfl, rfl⟩ := accept_eq_ok.mp hb
    · simp only [if_true, map_eq_bind, bind_eq_ok, expect_eq_ok, pure_apply,
        EStateM.Result.ok.injEq] at h
      obtain ⟨_, _, ⟨_, _, ⟨hd, rfl, rfl⟩, rfl, rfl⟩, h⟩ := h
      simp only [bind_eq_ok, rule_eq_ok, Scope.checkResult_eq_ok, pure_apply,
        EStateM.Result.ok.injEq] at h
      obtain ⟨_, _, ⟨hc, rfl⟩, rfl, rfl⟩ := h
      exact .inl ⟨hk, hd, by simpa using hc, rfl, rfl⟩
    · simp only [Bool.false_eq_true, if_false, bind_of_ok (pure_apply _ _)] at h
      split at h
      · next hid =>
        simp only [bind_eq_ok, rule_eq_ok, Scope.checkResult_eq_ok, pure_apply,
          EStateM.Result.ok.injEq] at h
        obtain ⟨_, _, ⟨hc, rfl⟩, rfl, rfl⟩ := h
        exact .inr ⟨hk, hid, by simpa using hc, rfl, rfl⟩
      · simp only [bind_eq_ok, failAt_apply, reduceCtorEq, false_and, exists_false] at h
  · rintro ⟨hl, hr, ⟨hk, hd, hc, rfl, rfl⟩ | ⟨hk, hid, hc, rfl, rfl⟩⟩
    · refine ⟨_, _, ⟨hl, rfl, rfl⟩, _, _, ⟨hr, rfl, rfl⟩, true, _,
        accept_eq_ok.mpr (.inl ⟨hk, rfl, rfl⟩), ?_⟩
      have hrule : s.next.next.next.next.next.scope.checkResult op
          s.next.next.next.next.current = .ok () :=
        Scope.checkResult_eq_ok _ |>.mpr (by simpa using hc)
      rw [if_pos rfl, bind_of_ok (map_of_ok some (expect_eq_ok.mpr ⟨hd, rfl, rfl⟩))]
      dsimp only
      rw [bind_of_ok (rule_eq_ok.mpr ⟨hrule, rfl⟩)]
      rfl
    · refine ⟨_, _, ⟨hl, rfl, rfl⟩, _, _, ⟨hr, rfl, rfl⟩, false, _,
        accept_eq_ok.mpr (.inr ⟨hk, rfl, rfl⟩), ?_⟩
      have hrule : s.next.next.next.scope.checkResult op s.next.current = .ok () :=
        Scope.checkResult_eq_ok _ |>.mpr (by simpa using hc)
      rw [if_neg Bool.false_ne_true, bind_of_ok (pure_apply _ _)]
      dsimp only
      rw [if_pos hid, bind_of_ok (rule_eq_ok.mpr ⟨hrule, rfl⟩)]
      rfl

/-- The first statement of a unit may open its namespace. -/
theorem namespaceInit_eq_ok {node : Node} :
    namespaceInit s = .ok node s' ↔
      s.taken = 0 ∧ s.next.current.kind = .libraryName ∧
        node = .openNamespace (dropAtSigns s.next.current.lexeme) ∧ s' = s.next.next := by
  unfold namespaceInit
  rw [bind_of_ok (get_apply s)]
  by_cases ht : s.taken = 0
  · rw [if_pos ht, bind_of_ok (advance_apply s), bind_of_ok (sees_apply _ _)]
    by_cases hk : s.next.current.kind = .libraryName
    · rw [if_pos (beq_iff_eq.mpr hk), bind_of_ok (advance_apply _), pure_apply]
      simp [ht, hk, eq_comm]
    · rw [if_neg (by simpa using hk), bind_of_ok (peek_apply _)]
      simp [hk]
  · rw [if_neg ht, bind_of_ok (peek_apply _)]
    simp [ht]

theorem libraryImport_eq_ok {ctx : Context} {node : Node} :
    libraryImport ctx s = .ok node s' ↔
      ctx.isTopLevel = true ∧ s.next.current.kind = .libraryName ∧
        dropAtSigns s.next.current.lexeme ∉ s.imports ∧
        node = .useLibrary (dropAtSigns s.next.current.lexeme) s.next.current.span ∧
        s' = { s.next.next with
          imports := dropAtSigns s.next.current.lexeme :: s.imports } := by
  unfold libraryImport
  rw [bind_of_ok (advance_apply s)]
  by_cases ht : ctx.isTopLevel = true
  · rw [if_pos ht, bind_eq_ok]
    simp only [expect_eq_ok]
    constructor
    · rintro ⟨_, _, ⟨hk, rfl, rfl⟩, h⟩
      rw [bind_of_ok (get_apply _)] at h
      split at h
      · cases h
      · next hi => cases h; exact ⟨ht, hk, by simpa using hi, rfl, by simp⟩
    · rintro ⟨-, hk, hi, rfl, rfl⟩
      refine ⟨_, _, ⟨hk, rfl, rfl⟩, ?_⟩
      rw [bind_of_ok (get_apply _), if_neg (by simpa using hi), bind_of_ok (modify_apply _ _),
        pure_apply]
      simp
  · rw [if_neg ht]
    simp [ht]

/-! ## Parameters -/

theorem parameter_eq_ok {function : Token} {before : List (Token × ValueType)}
    {p : Token × ValueType} :
    parameter function before s = .ok p s' ↔
      s.current.kind = .type p.2 ∧ p.2.isStorable = true ∧ s.next.current.kind = .identifier ∧
        s.next.current.lexeme ∉ before.map (·.1.lexeme) ∧ p.1 = s.next.current ∧
        s' = s.next.next := by
  unfold parameter identifier
  rw [bind_of_ok (sees_apply _ s)]
  by_cases he : s.current.kind = .eof
  · simp [he, malformedHeader, bind_of_ok (peek_apply s)]
  rw [if_neg (by simpa using he)]
  have hany (x : String) :
      before.any (·.1.lexeme == x) = true ↔ x ∈ before.map (·.1.lexeme) := by
    rw [List.any_eq_true, List.mem_map]
    simp only [beq_iff_eq]
  simp only [bind_eq_ok, storableType_eq_ok, expect_eq_ok]
  constructor
  · rintro ⟨type, _, ⟨ht, hs, rfl⟩, _, _, ⟨hn, rfl, rfl⟩, h⟩
    split at h
    · cases h
    · next hnew =>
      cases h
      exact ⟨ht, hs, hn, mt (hany _).mpr hnew, rfl, rfl⟩
  · rintro ⟨ht, hs, hn, hnew, hp, rfl⟩
    refine ⟨p.2, _, ⟨ht, hs, rfl⟩, _, _, ⟨hn, rfl, rfl⟩, ?_⟩
    rw [if_neg (mt (hany _).mp hnew), pure_apply, ← hp]

/-- **Parameters are bound one by one.** They are all different and none has a
meaning before. -/
theorem bindParameters_eq_ok {parameters : List (Token × ValueType)} {base : Scope}
    {bindings : List (String × ValueType)} {u : Unit} (hs : s.scope = base.inBlock bindings) :
    bindParameters parameters s = .ok u s' ↔
      (∀ p ∈ parameters, (base.inBlock bindings).isDefined p.1.lexeme = false) ∧
        (parameters.map (·.1.lexeme)).Nodup ∧
        s' = { s with scope :=
          base.inBlock ((parameters.map fun p => (p.1.lexeme, p.2)).reverse ++ bindings) } := by
  induction parameters generalizing s bindings with
  | nil =>
    show EStateM.Result.ok _ s = .ok _ s' ↔ _
    constructor
    · intro h
      obtain ⟨-, rfl⟩ := EStateM.Result.ok.inj h
      exact ⟨nofun, .nil, by rw [List.map_nil, List.reverse_nil, List.nil_append, ← hs]⟩
    · rintro ⟨-, -, rfl⟩
      rw [List.map_nil, List.reverse_nil, List.nil_append, ← hs]
  | cons p rest ih =>
    obtain ⟨name, type⟩ := p
    have hblock : ((name, type) :: rest).map (fun p => (p.1.lexeme, p.2)) =
        (name.lexeme, type) :: rest.map fun p => (p.1.lexeme, p.2) := rfl
    rw [hblock, List.reverse_cons, List.append_assoc, List.singleton_append, List.map_cons,
      List.nodup_cons, List.forall_mem_cons]
    show (introduce name (Scope.bindName name.lexeme type) >>= fun _ =>
      bindParameters rest) s = _ ↔ _
    simp only [bind_eq_ok, introduce_eq_ok, hs, Scope.bindName_inBlock]
    -- A later parameter has no meaning in the longer block exactly if it has none in the
    -- shorter one and is not the parameter that was just bound.
    have hlonger : (∀ p ∈ rest, (base.inBlock ((name.lexeme, type) :: bindings)).isDefined
        p.1.lexeme = false) ↔ (∀ p ∈ rest, (base.inBlock bindings).isDefined p.1.lexeme = false) ∧
        name.lexeme ∉ rest.map (·.1.lexeme) := by
      simp only [Scope.isDefined_inBlock_cons, Bool.or_eq_false_iff, beq_eq_false_iff_ne,
        List.mem_map, not_exists, not_and]
      exact ⟨fun h => ⟨fun p hp => (h p hp).2, fun p hp => (h p hp).1⟩,
        fun h p hp => ⟨h.2 p hp, h.1 p hp⟩⟩
    constructor
    · rintro ⟨_, _, ⟨_, ⟨hnew, rfl⟩, rfl⟩, h⟩
      obtain ⟨hrest, hnodup, rfl⟩ := (ih rfl).mp h
      obtain ⟨hrest, hname⟩ := hlonger.mp hrest
      exact ⟨⟨hnew, hrest⟩, ⟨hname, hnodup⟩, rfl⟩
    · rintro ⟨⟨hnew, hrest⟩, ⟨hname, hnodup⟩, rfl⟩
      refine ⟨⟨⟩, _, ⟨_, ⟨hnew, rfl⟩, rfl⟩, (ih rfl).mpr ⟨?_, hnodup, rfl⟩⟩
      exact hlonger.mpr ⟨hrest, hname⟩

end MapleCompiler.Read
