import MapleCompiler.Proofs.Acceptance.Judgement
import MapleCompiler.Proofs.Language.Literal
import MapleCompiler.Proofs.Reading.Readers

/-!
# Statements without a body that are read are acceptable

What a reader gives is acceptable in the sense of `Accepts`. Each reader of a
part is *quiet*: it takes tokens and changes nothing that is known
(`ReadState.Quiet`). Each reader of a statement gives a node that is acceptable
where it starts, and what is known after it is what the judgement says
(`Read.Gives`).
-/

namespace MapleCompiler

namespace ReadState

/-- What is known in a state. -/
def facts (s : ReadState) : Facts := ⟨s.scope, s.imports, s.warnings.map Warning.unplaced⟩

@[simp] theorem facts_scope (s : ReadState) : s.facts.scope = s.scope := rfl

@[simp] theorem facts_imports (s : ReadState) : s.facts.imports = s.imports := rfl

theorem facts_withScope (s : ReadState) (scope : Scope) :
    { s with scope := scope }.facts = { s.facts with scope := scope } := rfl

@[simp] theorem facts_next (s : ReadState) : s.next.facts = s.facts := by
  unfold facts
  rw [next_scope, next_imports, next_warnings]

variable {V : Vocabulary} {s s₁ s' : ReadState}

/-- **The tokens to be read are words of a vocabulary**, and an end mark
stands after them. -/
structure Over (V : Vocabulary) (s : ReadState) : Prop where
  words : ∀ t ∈ s.pending, V.word t.kind t.lexeme
  final : s.final.kind = .eof

theorem Over.next (h : s.Over V) : s.next.Over V where
  words t ht := h.words t (List.mem_of_mem_tail (next_pending s ▸ ht))
  final := by rw [next_final]; exact h.final

/-- The token that is looked at is a word, unless it is the end mark. -/
theorem Over.word (h : s.Over V) {kind : TokenKind} (hk : s.current.kind = kind)
    (hne : kind ≠ .eof) : V.word kind s.current.lexeme := by
  subst hk
  have hp := pending_eq_cons h.final hne
  exact h.words _ (hp ▸ List.mem_cons_self)

theorem Over.has (h : s.Over V) {kind : TokenKind} (hk : s.current.kind = kind)
    (hne : kind ≠ .eof) : V.Has kind := ⟨_, h.word hk hne⟩

theorem Over.operand (h : s.Over V) (ho : s.current.kind.isOperand = true) :
    V.word s.current.kind s.current.lexeme :=
  h.word rfl fun he => by rw [he] at ho; cases ho

theorem Over.literal (h : s.Over V) (hl : s.current.kind.isLiteral = true) :
    V.word s.current.kind s.current.lexeme :=
  h.word rfl fun he => by rw [he] at hl; cases hl

theorem Over.known (h : s.Over V) (hk : Read.SeesKnown s) :
    V.Known s.scope s.current.lexeme :=
  ⟨s.current.kind, hk.1, h.operand hk.1, hk.2⟩

theorem Over.congr (h : s.Over V) (hp : s'.pending = s.pending) (hf : s'.final = s.final) :
    s'.Over V := ⟨hp ▸ h.words, hf ▸ h.final⟩

/-- **Only tokens were taken** on the way from `s` to `s'`. -/
structure Quiet (V : Vocabulary) (s s' : ReadState) : Prop where
  tokens : s'.Over V
  facts : s'.facts = s.facts
  taken : s.taken ≤ s'.taken

theorem taken_le_next (s : ReadState) : s.taken ≤ s.next.taken := by
  unfold ReadState.next
  split
  · exact Nat.le_refl _
  · exact Nat.le_succ _

theorem Quiet.refl (h : s.Over V) : s.Quiet V s := ⟨h, rfl, Nat.le_refl _⟩

theorem Quiet.next (h : s.Quiet V s') : s.Quiet V s'.next :=
  ⟨h.tokens.next, (facts_next s').trans h.facts, Nat.le_trans h.taken (taken_le_next s')⟩

theorem Quiet.trans (h : s.Quiet V s₁) (h' : s₁.Quiet V s') : s.Quiet V s' :=
  ⟨h'.tokens, h'.facts.trans h.facts, Nat.le_trans h.taken h'.taken⟩

theorem Quiet.scope (h : s.Quiet V s') : s'.scope = s.scope := congrArg Facts.scope h.facts

end ReadState

namespace Read

variable {V : Vocabulary} {s s' : ReadState}

/-! ## Parts of statements -/

theorem quiet_index? {index : Option Token} (h : index? s = .ok index s') (hs : s.Over V) :
    s.Quiet V s' ∧
      ∀ t, index = some t → t.kind.isOperand = true ∧ V.word t.kind t.lexeme := by
  obtain ⟨-, rfl, rfl⟩ | ⟨-, ho, -, rfl, rfl⟩ := index?_eq_ok.mp h
  · exact ⟨.refl hs, nofun⟩
  · refine ⟨(ReadState.Quiet.refl hs).next.next.next, ?_⟩
    rintro t ⟨⟩
    exact ⟨ho, hs.next.operand ho⟩

theorem quiet_condition {c : Condition} (h : condition s = .ok c s') (hs : s.Over V) :
    s.Quiet V s' ∧ Node.ConditionChecked V s.scope c := by
  obtain ⟨hl, ho, hr, hleft, hright, rfl⟩ := condition_eq_ok.mp h
  refine ⟨(ReadState.Quiet.refl hs).next.next.next, ?_, ?_, ?_⟩
  · rw [hleft]; exact hs.known hl
  · exact hs.next.has ho nofun
  · rw [hright]; simpa using hs.next.next.known hr

theorem quiet_bounds {start stop : String} (h : bounds s = .ok (start, stop) s') (hs : s.Over V) :
    s.Quiet V s' ∧ V.Known s.scope start ∧ V.Known s.scope stop := by
  obtain ⟨hf, ⟨-, hl, rfl, rfl, rfl⟩ | ⟨-, rfl, rfl, rfl⟩⟩ := bounds_eq_ok.mp h
  · exact ⟨(ReadState.Quiet.refl hs).next.next.next, hs.known hf,
      by simpa using hs.next.next.known hl⟩
  · exact ⟨(ReadState.Quiet.refl hs).next, V.known_zero _, hs.known hf⟩

/-- **Items of a list**: what holds of the items so far, and of one more after
each item, holds of all. By induction on the budget; nothing is learned on the
way, so each item is read with the same facts. -/
theorem quiet_listItems {α : Type} {close : TokenKind} {expected : String}
    {item : List α → Read α} (Holds : List α → Prop) {F : Facts}
    (hitem : ∀ items s a s', Holds items → s.Over V → s.facts = F → item items s = .ok a s' →
      Holds (items ++ [a]) ∧ s.Quiet V s')
    (budget : Nat) (items all : List α) (s s' : ReadState) (hs : s.Over V) (hF : s.facts = F)
    (hitems : Holds items) (h : listItems close expected item budget items s = .ok all s') :
    Holds all ∧ s.Quiet V s' := by
  induction budget generalizing items s with
  | zero => cases h
  | succ budget ih =>
    unfold listItems at h
    obtain ⟨closed, s₁, hclose, h₁⟩ := bind_eq_ok.mp h
    obtain ⟨-, rfl, rfl⟩ | ⟨-, rfl, rfl⟩ := accept_eq_ok.mp hclose
    · obtain ⟨rfl, rfl⟩ := EStateM.Result.ok.inj h₁
      exact ⟨hitems, (ReadState.Quiet.refl hs).next⟩
    rw [if_neg Bool.false_ne_true] at h₁
    obtain ⟨a, s₂, ha, h₂⟩ := bind_eq_ok.mp h₁
    obtain ⟨hnew, hq⟩ := hitem items s₁ a s₂ hitems hs hF ha
    obtain ⟨separated, s₃, hcomma, h₃⟩ := bind_eq_ok.mp h₂
    have hq₃ : s₁.Quiet V s₃ := by
      obtain ⟨-, -, rfl⟩ | ⟨-, -, rfl⟩ := accept_eq_ok.mp hcomma
      · exact hq.next
      · exact hq
    rw [bind_of_ok (sees_apply _ _)] at h₃
    split at h₃
    · obtain ⟨hall, hq'⟩ := ih (items ++ [a]) s₃ hq₃.tokens (hq₃.facts.trans hF) hnew h₃
      exact ⟨hall, hq₃.trans hq'⟩
    · cases h₃

theorem quiet_listUntil {α : Type} {close : TokenKind} {expected : String}
    {item : List α → Read α} (Holds : List α → Prop)
    (hitem : ∀ items s₁ a s₂, Holds items → s₁.Over V → s₁.facts = s.facts →
      item items s₁ = .ok a s₂ → Holds (items ++ [a]) ∧ s₁.Quiet V s₂)
    {all : List α} (hs : s.Over V) (hnil : Holds [])
    (h : listUntil close expected item s = .ok all s') : Holds all ∧ s.Quiet V s' := by
  unfold listUntil at h
  rw [bind_of_ok (get_apply s)] at h
  exact quiet_listItems Holds hitem _ [] all s s' hs rfl hnil h

theorem quiet_call {c : Call} (h : call s = .ok c s') (hs : s.Over V) :
    s.next.Quiet V s' ∧ c.function = s.current.lexeme ∧ Node.CallChecked V s.scope c := by
  obtain ⟨hname, -, hfunction, hlist⟩ := call_eq_ok.mp h
  have hq := (ReadState.Quiet.refl hs.next).next
  -- Every argument is known where the call stands: the list takes only tokens.
  obtain ⟨hargs, hq'⟩ := quiet_listUntil (fun items => ∀ x ∈ items, V.Known s.scope x)
    (fun items s₁ x s₂ hitems hs₁ hF hx => by
      unfold argument at hx
      simp only [bind_eq_ok, knownOperand_eq_ok, pure_apply, EStateM.Result.ok.injEq] at hx
      obtain ⟨_, _, ⟨hk, rfl, rfl⟩, rfl, rfl⟩ := hx
      refine ⟨fun x hx => ?_, (ReadState.Quiet.refl hs₁).next⟩
      obtain hx | hx := List.mem_append.mp hx
      · exact hitems x hx
      · rw [List.mem_singleton.mp hx]
        have hscope : s₁.scope = s.scope := by simpa using congrArg Facts.scope hF
        exact hscope ▸ hs₁.known hk)
    hq.tokens nofun hlist
  exact ⟨hq.trans hq', hfunction, hfunction ▸ hs.word hname nofun, hargs⟩

/-- The shape of an array, as its initializer: a size and literals that the
type accepts, no more of them than the size. -/
theorem quiet_arrayShape {name : String} {type : ValueType} {shape : ArrayShape}
    (h : arrayShape name type s = .ok shape s') (hs : s.Over V) :
    s.Quiet V s' ∧ Node.Initializes V s.scope type (.array shape.size shape.values) := by
  unfold arrayShape at h
  simp only [bind_eq_ok, expect_eq_ok, arraySize_eq_ok] at h
  obtain ⟨_, _, ⟨-, rfl, rfl⟩, size, _, ⟨-, hsize, hpos, rfl⟩, _, _, harrow, h⟩ := h
  have hq := (ReadState.Quiet.refl hs).next.next
  obtain ⟨-, rfl, rfl⟩ | ⟨-, rfl, rfl⟩ := accept_eq_ok.mp harrow
  · simp only [if_true, bind_eq_ok, expect_eq_ok, pure_apply, EStateM.Result.ok.injEq] at h
    obtain ⟨_, _, ⟨-, rfl, rfl⟩, values, _, hlist, rfl, rfl⟩ := h
    obtain ⟨⟨hlength, hvalues⟩, hq'⟩ := quiet_listUntil
      (fun items => items.length ≤ size ∧ ∀ x ∈ items,
        (∃ kind, kind.isLiteral = true ∧ V.word kind x) ∧ s.scope.Stores type x)
      (fun items s₁ x s₂ hitems hs₁ hF hx => by
        have hscope : s₁.scope = s.scope := by simpa using congrArg Facts.scope hF
        obtain ⟨hl, hstores, hroom, rfl, rfl⟩ := arrayValue_eq_ok.mp hx
        have hlength : (items ++ [s₁.current.lexeme]).length ≤ size := by
          rw [List.length_append]
          exact Nat.lt_of_le_of_ne hitems.1 hroom
        refine ⟨⟨hlength, fun x hx => ?_⟩, (ReadState.Quiet.refl hs₁).next⟩
        obtain hx | hx := List.mem_append.mp hx
        · exact hitems.2 x hx
        · rw [List.mem_singleton.mp hx]
          exact ⟨⟨_, hl, hs₁.literal hl⟩, hscope ▸ hstores⟩)
      hq.next.next.tokens ⟨Nat.zero_le _, nofun⟩ hlist
    exact ⟨hq.next.next.trans hq', hpos, Literal.index?_lt hsize, hlength, hvalues⟩
  · cases h
    exact ⟨hq, hpos, Literal.index?_lt hsize, Nat.zero_le _, nofun⟩

/-- What a variable starts with, and the role that it then has. The role is
the one that its declaration says, so it need not be kept beside the node. -/
theorem quiet_initializer {name : String} {type : ValueType} {constant : Bool}
    {init : Initializer} {role : Role}
    (h : initializer name type constant s = .ok (init, role) s') (hs : s.Over V) :
    s.Quiet V s' ∧ Node.Initializes V s.scope type init ∧
      role = (Declaration.symbol ⟨type, name, init, constant⟩).role := by
  unfold initializer at h
  rw [bind_of_ok (seesCall_apply s)] at h
  split at h
  · rw [bind_of_ok (peek_apply s)] at h
    simp only [bind_eq_ok, rule_eq_ok, Scope.checkCallResult_eq_ok, pure_apply,
      EStateM.Result.ok.injEq, Prod.mk.injEq] at h
    obtain ⟨c, s₁, hcall, _, _, ⟨hsupplies, rfl⟩, _, _, ⟨harity, rfl⟩, ⟨rfl, rfl⟩, rfl⟩ := h
    obtain ⟨hq₁, hname, hchecked⟩ := quiet_call hcall hs
    have hq := (ReadState.Quiet.refl hs).next.trans hq₁
    rw [hq.scope] at hsupplies harity
    rw [Scope.checkArity_eq_ok _ hname.symm] at harity
    exact ⟨hq, ⟨hchecked, hname ▸ hsupplies, harity⟩, rfl⟩
  obtain ⟨_, s₁, hbracket, h₁⟩ := bind_eq_ok.mp h
  obtain ⟨-, rfl, rfl⟩ | ⟨-, rfl, rfl⟩ := accept_eq_ok.mp hbracket
  · simp only [if_true, bind_eq_ok, pure_apply, EStateM.Result.ok.injEq, Prod.mk.injEq] at h₁
    obtain ⟨shape, _, hshape, ⟨rfl, rfl⟩, rfl⟩ := h₁
    obtain ⟨hq, hinit⟩ := quiet_arrayShape hshape hs.next
    exact ⟨(ReadState.Quiet.refl hs).next.trans hq, by simpa using hinit, rfl⟩
  · simp only [Bool.false_eq_true, if_false, bind_eq_ok, operand_eq_ok, rule_eq_ok,
      Scope.checkValue_eq_ok, pure_apply, EStateM.Result.ok.injEq, Prod.mk.injEq] at h₁
    obtain ⟨_, _, ⟨ho, rfl, rfl⟩, _, _, ⟨hv, rfl⟩, ⟨rfl, rfl⟩, rfl⟩ := h₁
    exact ⟨(ReadState.Quiet.refl hs).next, ⟨⟨_, ho, hs.operand ho⟩, by simpa using hv⟩, rfl⟩

/-! ## Statements without a body

Each of them is acceptable where statements may stand. What follows one is
again a statement, except at the beginning of a unit, where a namespace may be
opened. -/

/-- **A statement was read**: its nodes are acceptable from `part` on, the
words are still those of the vocabulary, and a token was taken for a node. -/
structure Gives (V : Vocabulary) (ctx : Context) (s : ReadState) (part : Part)
    (nodes : List Node) (part' : Part) (s' : ReadState) : Prop where
  tokens : s'.Over V
  accepts : Accepts V ctx part s.facts nodes part' s'.facts
  taken : s'.taken ≠ 0
  nonempty : nodes ≠ []

theorem Gives.plain {ctx : Context} {node : Node} {part part' : Part}
    (hpart : part.after? node = some part') (hbody : node.body = [])
    (hnode : node.Checked V ctx s.facts) (hover : s'.Over V)
    (hfacts : s'.facts = (s.facts.enter node).leave node) (htaken : s'.taken ≠ 0) :
    Gives V ctx s part [node] part' s' :=
  ⟨hover, hfacts ▸ .plain hpart hbody hnode, htaken, List.cons_ne_nil _ _⟩

/-- The first token of a statement is taken, so the statement is not at the
beginning of the unit any more. -/
theorem taken_of_quiet (hs : s.Over V) (hk : s.current.kind ≠ .eof) (h : s.next.Quiet V s') :
    s'.taken ≠ 0 := by
  have := h.taken
  rw [ReadState.next_taken hs.final hk] at this
  omega

theorem gives_declaration {ctx : Context} {node : Node} (h : declaration s = .ok node s')
    (hs : s.Over V) (hk : s.current.kind ≠ .eof) : Gives V ctx s .list [node] .list s' := by
  obtain ⟨changeable, s₁, type, init, role, s₂, hch, htype, hstorable, hname, hnew, hinit, -, rfl,
    rfl⟩ := declaration_eq_ok.mp h
  have hq₁ : s.next.Quiet V s₁ := by
    obtain ⟨-, -, rfl⟩ | ⟨-, -, rfl⟩ := accept_eq_ok.mp hch
    · exact (ReadState.Quiet.refl hs.next).next
    · exact .refl hs.next
  obtain ⟨hq₂, hinitializes, rfl⟩ := quiet_initializer hinit hq₁.tokens.next.next
  have hq := hq₁.next.next.trans hq₂
  have hfacts : s₂.facts = s.facts := hq.facts.trans (ReadState.facts_next s)
  have hscope : s₂.scope = s.scope := congrArg Facts.scope hfacts
  have hscope₁ : s₁.scope = s.scope := by rw [hq₁.scope, ReadState.next_scope]
  have htaken : s₂.taken ≠ 0 := taken_of_quiet hs hk hq
  rw [ReadState.next_scope, ReadState.next_scope, hscope₁] at hinitializes
  rw [hscope₁] at hnew
  refine .plain rfl rfl ?_ (hq.tokens.congr rfl rfl) ?_ htaken
  · exact ⟨hq₁.tokens.has htype nofun, hstorable, hq₁.tokens.next.word hname nofun, hnew,
      hinitializes⟩
  · rw [ReadState.facts_withScope, hfacts, hscope]
    rfl

theorem gives_assignment {ctx : Context} {node : Node} (h : assignment s = .ok node s')
    (hs : s.Over V) (hk : s.current.kind ≠ .eof) : Gives V ctx s .list [node] .list s' := by
  obtain ⟨hname, targetIndex, s₁, valueIndex, type, value, hti, ho, hvi, htarget, hvalue, rfl⟩ :=
    assignment_eq_ok.mp h
  obtain ⟨hq₁, hindex₁⟩ := quiet_index? hti hs.next.next
  obtain ⟨hq₂, hindex₂⟩ := quiet_index? hvi hq₁.tokens.next
  have hq : s.next.Quiet V s' := (ReadState.Quiet.refl hs.next).next.trans (hq₁.next.trans hq₂)
  have hfacts : s'.facts = s.facts := hq.facts.trans (ReadState.facts_next s)
  have hscope : s'.scope = s.scope := congrArg Facts.scope hfacts
  rw [hscope] at htarget hvalue
  refine .plain rfl rfl ⟨hs.next.word hname nofun, type, ?_, ?_⟩ hq.tokens hfacts
    (taken_of_quiet hs hk hq)
  · rw [Scope.checkTarget_eq_ok] at htarget
    cases targetIndex with
    | none => exact htarget
    | some t => exact ⟨t.kind, (hindex₁ t rfl).1, (hindex₁ t rfl).2, htarget⟩
  · cases valueIndex with
    | none =>
      obtain ⟨hstores, rfl⟩ := hvalue
      exact ⟨⟨_, ho, hq₁.tokens.operand ho⟩, hstores⟩
    | some index =>
      obtain ⟨shape, harray, hselects, hgives⟩ := (Scope.elementValue_eq_ok _).mp hvalue
      have hoperand : V.Operand s₁.current.lexeme := ⟨_, ho, hq₁.tokens.operand ho⟩
      by_cases hid : index.kind = .identifier
      · rw [if_pos hid] at hgives
        rw [hid, Scope.selects_name] at hselects
        subst hgives
        exact ⟨hoperand, hid ▸ (hindex₂ index rfl).2, hselects, shape, harray⟩
      · rw [if_neg hid] at hgives
        obtain ⟨i, literal, hi, hliteral, rfl⟩ := hgives
        obtain ⟨j, hj, hlt⟩ := (Scope.selects_literal _ hid).mp hselects
        obtain rfl := Option.some.inj (hi.symm.trans hj)
        exact ⟨hoperand, Literal.index?_lt hi, shape, harray, hlt, hliteral⟩

theorem gives_output {ctx : Context} {node : Node} (h : output s = .ok node s')
    (hs : s.Over V) (hk : s.current.kind ≠ .eof) : Gives V ctx s .list [node] .list s' := by
  obtain ⟨hknown, index, hi, hcheck, rfl⟩ := output_eq_ok.mp h
  obtain ⟨hq₁, hindex⟩ := quiet_index? hi hs.next.next
  have hq : s.next.Quiet V s' := (ReadState.Quiet.refl hs.next).next.trans hq₁
  have hfacts : s'.facts = s.facts := hq.facts.trans (ReadState.facts_next s)
  have hscope : s'.scope = s.scope := congrArg Facts.scope hfacts
  rw [hscope, Scope.checkOutput_eq_ok] at hcheck
  refine .plain rfl rfl ⟨by simpa using hs.next.known hknown, ?_⟩ hq.tokens hfacts
    (taken_of_quiet hs hk hq)
  cases index with
  | none => trivial
  | some t =>
    obtain ⟨m, shape, hm, hshape, hselects⟩ := hcheck t rfl
    exact ⟨m.type, shape, ⟨m, hm, rfl, hshape⟩, t.kind, (hindex t rfl).1, (hindex t rfl).2,
      hselects⟩

theorem gives_save {ctx : Context} {node : Node} (h : save s = .ok node s')
    (hs : s.Over V) (hk : s.current.kind ≠ .eof) : Gives V ctx s .list [node] .list s' := by
  obtain ⟨hname, hsaves, rfl, rfl⟩ := save_eq_ok.mp h
  have hq := (ReadState.Quiet.refl hs.next).next
  have htaken : s.next.next.taken ≠ 0 := taken_of_quiet hs hk hq
  refine .plain rfl rfl ⟨hs.next.word hname nofun, hsaves⟩ (hq.tokens.congr rfl rfl) ?_ htaken
  rw [ReadState.facts_withScope, hq.facts, ReadState.facts_next]
  rfl

theorem gives_restore {ctx : Context} {node : Node} (h : restore s = .ok node s')
    (hs : s.Over V) (hk : s.current.kind ≠ .eof) : Gives V ctx s .list [node] .list s' := by
  obtain ⟨hname, hsaves, rfl, hs'⟩ := restore_eq_ok.mp h
  have hq := (ReadState.Quiet.refl hs.next).next
  have htaken : s.next.next.taken ≠ 0 := taken_of_quiet hs hk hq
  have hfacts : s.next.next.facts = s.facts := by simp
  have hchecked : (Node.restore s.next.current.lexeme).Checked V ctx s.facts :=
    ⟨hs.next.word hname nofun, hsaves⟩
  by_cases hb : s.scope.hasBackup s.next.current.lexeme = true
  · rw [if_pos hb] at hs'
    subst hs'
    refine .plain rfl rfl hchecked hq.tokens ?_ htaken
    show _ = s.facts.enter (.restore _)
    rw [hfacts, Facts.enter, if_pos (by simpa using hb)]
  · rw [if_neg hb] at hs'
    subst hs'
    refine .plain rfl rfl hchecked (hq.tokens.congr rfl rfl) ?_ htaken
    show _ = s.facts.enter (.restore _)
    rw [Facts.enter, if_neg (by simpa using hb)]
    simp [ReadState.facts, Warning.unplaced, Warning.restoreWithoutBackup]

theorem gives_giveBack {ctx : Context} {node : Node} (h : giveBack ctx s = .ok node s')
    (hs : s.Over V) (hk : s.current.kind ≠ .eof) : Gives V ctx s .list [node] .list s' := by
  obtain ⟨signature, value?, hfunction, hvalue, hreturns, rfl, hs'⟩ := giveBack_eq_ok.mp h
  have hq : s.next.Quiet V s' := by
    rw [hs']
    split
    · exact (ReadState.Quiet.refl hs.next).next
    · exact .refl hs.next
  have hfacts : s'.facts = s.facts := hq.facts.trans (ReadState.facts_next s)
  refine .plain rfl rfl ⟨?_, signature, hfunction, hreturns⟩ hq.tokens hfacts
    (taken_of_quiet hs hk hq)
  rintro x rfl
  split at hvalue
  · next hr => exact Option.some.inj hvalue ▸ ⟨_, hr.1, hs.next.operand hr.1⟩
  · cases hvalue

theorem gives_calculation {ctx : Context} {op : Arithmetic} {node : Node}
    (h : calculation op s = .ok node s') (hs : s.Over V) (hk : s.current.kind = .arithmetic op) :
    Gives V ctx s .list [node] .list s' := by
  have hne : s.current.kind ≠ .eof := hk ▸ nofun
  obtain ⟨hl, hr, ⟨hinto, hname, hreceives, rfl, rfl⟩ | ⟨-, hname, hreceives, rfl, rfl⟩⟩ :=
    calculation_eq_ok.mp h
  · have hq := (ReadState.Quiet.refl hs.next).next.next.next.next
    have hstored : V.Has .into ∧ _ ∧ _ :=
      ⟨hs.next.next.next.has hinto nofun, hs.next.next.next.next.word hname nofun, hreceives⟩
    exact .plain rfl rfl ⟨hs.has hk nofun, by simpa using hs.next.known hl,
      by simpa using hs.next.next.known hr, hstored⟩ hq.tokens (by simp; rfl)
      (taken_of_quiet hs hne hq)
  · have hq := (ReadState.Quiet.refl hs.next).next.next
    exact .plain rfl rfl ⟨hs.has hk nofun, by simpa using hs.next.known hl,
      by simpa using hs.next.next.known hr, hs.next.word hname nofun, hreceives⟩ hq.tokens
      (by simp; rfl) (taken_of_quiet hs hne hq)

theorem gives_callStatement {ctx : Context} {node : Node} (h : callStatement s = .ok node s')
    (hs : s.Over V) (hk : s.current.kind ≠ .eof) : Gives V ctx s .list [node] .list s' := by
  unfold callStatement at h
  rw [bind_of_ok (peek_apply s)] at h
  simp only [bind_eq_ok, rule_eq_ok, pure_apply, EStateM.Result.ok.injEq] at h
  obtain ⟨c, _, hcall, _, _, ⟨harity, rfl⟩, rfl, rfl⟩ := h
  obtain ⟨hq, hname, hchecked⟩ := quiet_call hcall hs
  rw [hq.scope, ReadState.next_scope, Scope.checkArity_eq_ok _ hname.symm] at harity
  exact .plain rfl rfl ⟨hchecked, harity⟩ hq.tokens (hq.facts.trans (ReadState.facts_next s))
    (taken_of_quiet hs hk hq)

theorem gives_libraryImport {ctx : Context} {node : Node} (h : libraryImport ctx s = .ok node s')
    (hs : s.Over V) (hk : s.current.kind = .lib) : Gives V ctx s .list [node] .list s' := by
  obtain ⟨htop, hname, hfresh, rfl, rfl⟩ := libraryImport_eq_ok.mp h
  have hq := (ReadState.Quiet.refl hs.next).next
  have htaken : s.next.next.taken ≠ 0 := taken_of_quiet hs (hk ▸ nofun) hq
  refine .plain rfl rfl ?_ (hq.tokens.congr rfl rfl) ?_ htaken
  · exact ⟨htop, hs.has hk nofun, ⟨_, hs.next.word hname nofun, rfl⟩, hfresh⟩
  · simp [ReadState.facts, Facts.enter, Facts.leave]

/-- Only the first statement of a unit opens a namespace: the cursor has to be
at the first token. -/
theorem gives_namespaceInit {ctx : Context} {node : Node} (h : namespaceInit s = .ok node s')
    (hs : s.Over V) (hk : s.current.kind = .init) :
    s.taken = 0 ∧ Gives V ctx s .start [node] .list s' := by
  obtain ⟨hstart, hname, rfl, rfl⟩ := namespaceInit_eq_ok.mp h
  have hq := (ReadState.Quiet.refl hs.next).next
  refine ⟨hstart, .plain rfl rfl ?_ hq.tokens (by simp; rfl) (taken_of_quiet hs (hk ▸ nofun) hq)⟩
  exact ⟨hs.has hk nofun, _, hs.next.word hname nofun, rfl⟩

theorem gives_qualifiedCall {ctx : Context} {node : Node} (h : qualifiedCall s = .ok node s')
    (hs : s.Over V) (hk : s.current.kind = .qualifier) :
    Gives V ctx s .list [node] .list s' := by
  unfold qualifiedCall at h
  rw [bind_of_ok (advance_apply s), bind_of_ok (get_apply s.next)] at h
  split at h
  · next himport =>
    rw [bind_of_ok (seesCall_apply _)] at h
    split at h
    · simp only [bind_eq_ok, pure_apply, EStateM.Result.ok.injEq] at h
      obtain ⟨c, _, hcall, rfl, rfl⟩ := h
      obtain ⟨hq₁, -, hchecked⟩ := quiet_call hcall hs.next
      have hq := (ReadState.Quiet.refl hs.next).next.trans hq₁
      have hfacts := hq.facts.trans (ReadState.facts_next s)
      refine .plain rfl rfl ?_ hq.tokens hfacts (taken_of_quiet hs (hk ▸ nofun) hq)
      exact ⟨by simpa using himport, ⟨_, hs.word hk nofun, rfl⟩, by simpa using hchecked⟩
    · cases h
  · cases h

end Read

end MapleCompiler
