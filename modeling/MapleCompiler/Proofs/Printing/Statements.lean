import MapleCompiler.Proofs.Acceptance.Simple
import MapleCompiler.Proofs.Printing.Source

/-!
# The words of a statement are read back

A state stands *at* some words if they are the lexemes of the tokens that are
left (`ReadState.At`). The kinds of the tokens need not be said: a text is a
lexeme of one kind only. Each reader, at the words of what it reads and at any
words after them, gives back what was written and stands at the words after it.
Where a part could go on, the words after it have to break it off.
-/

namespace MapleCompiler

open Source

namespace ReadState

/-- **A state at some words**, where some facts are known. -/
structure At (d : Dialect) (F : Facts) (xs : List String) (s : ReadState) : Prop where
  tokens : s.Over d.vocabulary
  facts : s.facts = F
  lexemes : s.pending.map Token.lexeme = xs

namespace At

variable {d : Dialect} {F : Facts} {x : String} {xs : List String} {s s' : ReadState}
  {k : TokenKind}

theorem scope (h : s.At d F xs) : s.scope = F.scope := congrArg Facts.scope h.facts

theorem imports (h : s.At d F xs) : s.imports = F.imports := congrArg Facts.imports h.facts

theorem length_pending (h : s.At d F xs) : s.pending.length = xs.length := by
  rw [← h.lexemes, List.length_map]

/-- The token that is looked at is the first word, and the others are left
behind it. -/
theorem pending (h : s.At d F (x :: xs)) :
    ∃ rest, s.pending = s.current :: rest ∧ s.current.lexeme = x ∧ rest.map Token.lexeme = xs := by
  have hlexemes := h.lexemes
  unfold current
  cases hp : s.pending with
  | nil => rw [hp] at hlexemes; cases hlexemes
  | cons t rest =>
    rw [hp] at hlexemes
    obtain ⟨ht, hrest⟩ := List.cons.inj hlexemes
    exact ⟨rest, rfl, ht, hrest⟩

theorem lexeme (h : s.At d F (x :: xs)) : s.current.lexeme = x := by
  obtain ⟨_, -, hx, -⟩ := h.pending
  exact hx

theorem next (h : s.At d F (x :: xs)) : s.next.At d F xs := by
  obtain ⟨rest, hp, -, hrest⟩ := h.pending
  refine ⟨h.tokens.next, (facts_next s).trans h.facts, ?_⟩
  rw [next_pending, hp]
  exact hrest

/-- The first word decides the kind of the token that is looked at: a text is
a lexeme of one kind only. -/
theorem kind (h : s.At d F (x :: xs)) (hx : Lexeme d k x) : s.current.kind = k := by
  obtain ⟨rest, hp, hlexeme, -⟩ := h.pending
  have hword : Lexeme d s.current.kind s.current.lexeme :=
    h.tokens.words _ (hp ▸ List.mem_cons_self)
  rw [hlexeme] at hword
  exact hword.unique hx

theorem kind_nil (h : s.At d F []) : s.current.kind = .eof := by
  have hp := List.map_eq_nil_iff.mp h.lexemes
  unfold current
  rw [hp]
  exact h.tokens.final

/-- Other facts at the same words: what is known may change without the
tokens. -/
theorem withFacts {F' : Facts} (h : s.At d F xs) (hp : s'.pending = s.pending)
    (hf : s'.final = s.final) (hF : s'.facts = F') : s'.At d F' xs :=
  ⟨h.tokens.congr hp hf, hF, hp ▸ h.lexemes⟩

theorem mapScope (h : s.At d F xs) (f : Scope → Scope) :
    ({ s with scope := f s.scope } : ReadState).At d { F with scope := f F.scope } xs := by
  refine h.withFacts rfl rfl ?_
  rw [facts_withScope, h.facts, h.scope]

theorem known (h : s.At d F (x :: xs)) (hx : d.vocabulary.Known F.scope x) :
    Read.SeesKnown s := by
  obtain ⟨kind, hoperand, hword, hdefined⟩ := hx
  rw [← h.scope, ← h.lexeme] at hdefined
  rw [← h.kind hword] at hoperand hdefined
  exact ⟨hoperand, hdefined⟩

/-- A call begins where a colon is the second word, after a name. -/
theorem startsCall (h : s.At d F (x :: d.text .colon :: xs)) (hx : Lexeme d .identifier x) :
    s.startsCall = true :=
  (startsCall_iff h.tokens.final).mpr ⟨h.kind hx, h.next.kind (.shared (by decide))⟩

/-- Words that break off what stands before them, when they are looked at. A
name among them begins a call, as no other statement begins with a name. -/
theorem breaks (h : s.At d F xs) (hxs : Breaks d k xs) :
    s.current.kind = k ∧ continues k = false ∧ (k.isOperand = true → s.startsCall = true) := by
  cases xs with
  | nil =>
    obtain rfl : k = .eof := hxs
    exact ⟨h.kind_nil, rfl, nofun⟩
  | cons x xs =>
    obtain ⟨hx, hcontinues, hcolon⟩ := hxs
    refine ⟨h.kind hx, hcontinues, fun hoperand => ?_⟩
    obtain ⟨rfl, rest, rfl⟩ := hcolon hoperand
    exact h.startsCall hx

/-- A mark that continues a statement does not follow it, so the reader does
not take what comes after it for a part of it. -/
theorem current_ne (h : s.At d F xs) (hxs : ∃ kind, Breaks d kind xs)
    (hk : continues k = true) : s.current.kind ≠ k := by
  obtain ⟨kind, hxs⟩ := hxs
  obtain ⟨hkind, hcontinues, -⟩ := h.breaks hxs
  rw [hkind]
  rintro rfl
  rw [hk] at hcontinues
  cases hcontinues

/-- No call begins with the last word of a statement: a colon is no word that
may follow it. -/
theorem not_startsCall (h : s.At d F (x :: xs)) (hxs : ∃ kind, Breaks d kind xs) :
    s.startsCall = false := by
  rw [Bool.eq_false_iff]
  intro hcall
  exact h.next.current_ne hxs rfl ((startsCall_iff h.tokens.final).mp hcall).2

end At

end ReadState

namespace Read

variable {d : Dialect} {F : Facts} {xs : List String} {s : ReadState}

/-! ## Parts of statements -/

theorem reads_index? (i? : Option String) (h : s.At d F (indexWords d i? ++ xs))
    (hindex : ∀ x, i? = some x → ∃ kind, kind.isOperand = true ∧ Lexeme d kind x)
    (hnone : i? = none → s.current.kind ≠ .leftBracket) :
    ∃ index s', index? s = .ok index s' ∧ s'.At d F xs ∧ index.map Token.lexeme = i? ∧
      ∀ t, index = some t → Lexeme d t.kind t.lexeme := by
  cases i? with
  | none => exact ⟨none, s, index?_eq_ok.mpr (.inl ⟨hnone rfl, rfl, rfl⟩), h, rfl, nofun⟩
  | some x =>
    obtain ⟨kind, hoperand, hx⟩ := hindex x rfl
    have hbracket := h.kind (.shared (by decide))
    have hkind := h.next.kind hx
    have hclose := h.next.next.kind (.shared (by decide))
    refine ⟨some s.next.current, s.next.next.next,
      index?_eq_ok.mpr (.inr ⟨hbracket, hkind ▸ hoperand, hclose, rfl, rfl⟩), h.next.next.next,
      congrArg some h.next.lexeme, ?_⟩
    rintro t ⟨⟩
    rw [hkind, h.next.lexeme]
    exact hx

theorem reads_condition {c : Condition} (h : s.At d F (conditionWords d c ++ xs))
    (hc : Node.ConditionChecked d.vocabulary F.scope c) :
    ∃ s', condition s = .ok c s' ∧ s'.At d F xs := by
  obtain ⟨hleft, hop, hright⟩ := hc
  refine ⟨_, condition_eq_ok.mpr ⟨h.known hleft, h.next.kind (.ofHas hop rfl),
    h.next.next.known hright, h.lexeme.symm, h.next.next.lexeme.symm, rfl⟩, h.next.next.next⟩

section lists

variable {α β : Type} {close : TokenKind} {expected : String} {item : List α → Read α}

/-- A list goes on after an item, behind a comma or at its closing mark. In
the second case the mark is left for the next round to take. -/
theorem listItems_item {budget : Nat} {before : List α} {a : α} {s₁ s₂ : ReadState}
    (hne : s.current.kind ≠ close) (ha : item before s = .ok a s₁)
    (hafter : s₁.current.kind = .comma ∧ s₂ = s₁.next ∨
      s₁.current.kind = close ∧ close ≠ .comma ∧ s₂ = s₁) :
    listItems close expected item (budget + 1) before s =
      listItems close expected item budget (before ++ [a]) s₂ := by
  rw [listItems, bind_of_ok (accept_eq_ok.mpr (.inr ⟨hne, rfl, rfl⟩)), if_neg Bool.false_ne_true,
    bind_of_ok ha]
  obtain ⟨hcomma, rfl⟩ | ⟨hclose, hcomma, rfl⟩ := hafter
  · rw [bind_of_ok (accept_eq_ok.mpr (.inl ⟨hcomma, rfl, rfl⟩)), bind_of_ok (sees_apply _ _),
      Bool.true_or, if_pos rfl]
  · rw [bind_of_ok (accept_eq_ok.mpr (.inr ⟨hclose ▸ hcomma, rfl, rfl⟩)),
      bind_of_ok (sees_apply _ _), hclose, beq_self_eq_true, Bool.or_true, if_pos rfl]

/-- **The items of a list**, up to its closing mark. Every item is read back
by `view`, at words that do not begin with the mark, after the items before
it. -/
theorem reads_listItems (words : β → List String) (view : α → β) {all : List β}
    (hclose : close ∈ Dialect.legacy.kinds) (hcomma : close ≠ .comma)
    (hfirst : ∀ b ∈ all, ∃ x ys kind, words b = x :: ys ∧ Lexeme d kind x ∧ kind ≠ close)
    (hitem : ∀ before b after s xs, before.map view ++ b :: after = all →
      s.At d F (words b ++ xs) → ∃ a s', item before s = .ok a s' ∧ view a = b ∧ s'.At d F xs)
    (budget : Nat) (before : List α) (items : List β) (s : ReadState)
    (hall : before.map view ++ items = all)
    (h : s.At d F (listWords d words items ++ d.text close :: xs))
    (hbudget : items.length < budget) :
    ∃ read s', listItems close expected item budget before s = .ok (before ++ read) s' ∧
      read.map view = items ∧ s'.At d F xs := by
  induction budget generalizing before items s with
  | zero => omega
  | succ budget ih =>
    cases items with
    | nil =>
      refine ⟨[], s.next, ?_, rfl, h.next⟩
      rw [listItems, bind_of_ok (accept_eq_ok.mpr (.inl ⟨h.kind (.shared hclose), rfl, rfl⟩)),
        List.append_nil]
      rfl
    | cons b rest =>
      -- After the item a comma or the closing mark is looked at; in both cases the list
      -- goes on with the other items.
      have hgoes {after : List String} (hb : s.At d F (words b ++ after))
          (hafter : ∀ s₁ : ReadState, s₁.At d F after →
            ∃ s₂ : ReadState, s₂.At d F (listWords d words rest ++ d.text close :: xs) ∧
              (s₁.current.kind = .comma ∧ s₂ = s₁.next ∨
                s₁.current.kind = close ∧ close ≠ .comma ∧ s₂ = s₁)) :
          ∃ read s', listItems close expected item (budget + 1) before s =
            .ok (before ++ read) s' ∧ read.map view = b :: rest ∧ s'.At d F xs := by
        obtain ⟨x, ys, kind, hwords, hx, hne⟩ := hfirst b (by rw [← hall]; simp)
        have hkind : s.current.kind ≠ close := by
          rw [hwords, List.cons_append] at hb
          rw [hb.kind hx]
          exact hne
        obtain ⟨a, s₁, ha, hview, h₁⟩ := hitem before b rest s after hall hb
        obtain ⟨s₂, h₂, hstep⟩ := hafter s₁ h₁
        obtain ⟨read, s', hread, hviews, h'⟩ := ih (before ++ [a]) rest s₂
          (by
            rw [List.map_append, List.map_cons, hview, List.map_nil, List.append_assoc]
            exact hall)
          h₂ (by rw [List.length_cons] at hbudget; omega)
        refine ⟨a :: read, s', ?_, by rw [List.map_cons, hview, hviews], h'⟩
        rw [listItems_item hkind ha hstep, hread, List.append_assoc]
        rfl
      cases rest with
      | nil =>
        rw [listWords_singleton] at h
        exact hgoes h fun s₁ h₁ => ⟨s₁, h₁, .inr ⟨h₁.kind (.shared hclose), hcomma, rfl⟩⟩
      | cons b' rest =>
        rw [listWords_cons_cons, List.append_assoc] at h
        exact hgoes h fun s₁ h₁ => ⟨s₁.next, h₁.next, .inl ⟨h₁.kind (.shared (by decide)), rfl⟩⟩

/-- There are at least as many words as items, so a budget from the words is
enough for the items. -/
theorem length_le_listWords {words : β → List String} {items : List β}
    (h : ∀ b ∈ items, words b ≠ []) : items.length ≤ (listWords d words items).length := by
  induction items with
  | nil => exact Nat.le_refl 0
  | cons b rest ih =>
    obtain ⟨hb, hrest⟩ := List.forall_mem_cons.mp h
    have hpos := List.length_pos_iff.mpr hb
    cases rest with
    | nil => rw [listWords_singleton]; exact hpos
    | cons b' rest =>
      have := ih hrest
      simp only [listWords_cons_cons, List.length_append, List.length_cons] at this ⊢
      omega

/-- **A list with its closing mark** is read back, item by item. An item does
not begin with the mark, so the list does not end before its time, and the
budget is more than its items. -/
theorem reads_listUntil (words : β → List String) (view : α → β) {all : List β}
    (hclose : close ∈ Dialect.legacy.kinds) (hcomma : close ≠ .comma)
    (hfirst : ∀ b ∈ all, ∃ x ys kind, words b = x :: ys ∧ Lexeme d kind x ∧ kind ≠ close)
    (hitem : ∀ before b after s xs, before.map view ++ b :: after = all →
      s.At d F (words b ++ xs) → ∃ a s', item before s = .ok a s' ∧ view a = b ∧ s'.At d F xs)
    (h : s.At d F (listWords d words all ++ d.text close :: xs)) :
    ∃ read s', listUntil close expected item s = .ok read s' ∧ read.map view = all ∧
      s'.At d F xs := by
  have hlength : all.length < s.pending.length + 1 := by
    have hwords : ∀ b ∈ all, words b ≠ [] := by
      intro b hb
      obtain ⟨x, ys, -, hwords, -⟩ := hfirst b hb
      rw [hwords]
      exact List.cons_ne_nil x ys
    have := length_le_listWords (d := d) hwords
    rw [h.length_pending, List.length_append]
    omega
  unfold listUntil
  rw [bind_of_ok (get_apply s)]
  exact reads_listItems words view hclose hcomma hfirst hitem _ [] all s rfl h hlength

end lists

theorem reads_call {c : Call} (h : s.At d F (callWords d c ++ xs))
    (hc : Node.CallChecked d.vocabulary F.scope c) :
    ∃ s', call s = .ok c s' ∧ s'.At d F xs := by
  obtain ⟨hname, harguments⟩ := hc
  rw [callWords, List.cons_append, List.cons_append, List.append_assoc] at h
  have hlist : ∃ read s', listUntil .colon "',' or ':'" (fun _ => argument) s.next.next =
      .ok read s' ∧ read.map id = c.arguments ∧ s'.At d F xs := by
    refine reads_listUntil (fun x => [x]) id (by decide) (by decide) ?_ ?_ h.next.next
    · intro x hx
      obtain ⟨kind, hoperand, hword, -⟩ := harguments x hx
      exact ⟨x, [], kind, rfl, hword, by rintro rfl; cases hoperand⟩
    · intro before x after s₁ ys hall h₁
      have hknown := h₁.known (harguments x (by rw [← hall]; simp))
      refine ⟨s₁.current.lexeme, s₁.next, ?_, h₁.lexeme, h₁.next⟩
      unfold argument
      rw [bind_of_ok (knownOperand_eq_ok.mpr ⟨hknown, rfl, rfl⟩)]
      rfl
  obtain ⟨read, s', hread, hview, h'⟩ := hlist
  rw [List.map_id] at hview
  subst hview
  exact ⟨s', call_eq_ok.mpr ⟨h.kind hname, h.next.kind (.shared (by decide)), h.lexeme.symm, hread⟩,
    h'⟩

theorem reads_arrayShape {name : String} {type : ValueType} {size : Nat} {values : List String}
    (h : s.At d F (d.text .rightBracket :: toString size :: (valueWords d values ++ xs)))
    (hxs : ∃ kind, Breaks d kind xs)
    (hinit : Node.Initializes d.vocabulary F.scope type (.array size values)) :
    ∃ s', arrayShape name type s = .ok ⟨size, values⟩ s' ∧ s'.At d F xs := by
  obtain ⟨hpos, hbound, hlength, hvalues⟩ := hinit
  have hbracket := h.kind (.shared (by decide))
  have hindex : Literal.index? s.next.current.lexeme = some size := by
    rw [h.next.lexeme, Literal.index?_toString hbound]
  unfold arrayShape
  rw [bind_of_ok (expect_eq_ok.mpr ⟨hbracket, rfl, rfl⟩),
    bind_of_ok (arraySize_eq_ok.mpr ⟨h.next.kind (.toString size), hindex, hpos, rfl⟩)]
  have h₂ := h.next.next
  cases values with
  | nil =>
    have harrow := h₂.current_ne hxs (k := .arrow) rfl
    rw [bind_of_ok (accept_eq_ok.mpr (.inr ⟨harrow, rfl, rfl⟩))]
    exact ⟨_, rfl, h₂⟩
  | cons x rest =>
    rw [valueWords, List.cons_append, List.cons_append, List.append_assoc] at h₂
    have harrow := h₂.kind (.shared (by decide))
    have hbrace := h₂.next.kind (.shared (by decide))
    have hlist : ∃ read s', listUntil .rightBrace "',' or '\x7d'" (arrayValue name type size)
        s.next.next.next.next = .ok read s' ∧ read.map id = x :: rest ∧ s'.At d F xs := by
      refine reads_listUntil (fun x => [x]) id (by decide) (by decide) ?_ ?_ h₂.next.next
      · intro y hy
        obtain ⟨⟨kind, hliteral, hword⟩, -⟩ := hvalues y hy
        exact ⟨y, [], kind, rfl, hword, by rintro rfl; cases hliteral⟩
      · intro before y after s₁ ys hall h₁
        obtain ⟨⟨kind, hliteral, hword⟩, hstores⟩ := hvalues y (by rw [← hall]; simp)
        have hroom : before.length ≠ size := by
          have := congrArg List.length hall
          rw [List.length_append, List.length_map, List.length_cons] at this
          omega
        rw [← h₁.kind hword] at hliteral
        rw [← h₁.scope, ← h₁.lexeme] at hstores
        exact ⟨_, _, arrayValue_eq_ok.mpr ⟨hliteral, hstores, hroom, rfl, rfl⟩, h₁.lexeme, h₁.next⟩
    obtain ⟨read, s', hread, hview, h'⟩ := hlist
    rw [List.map_id] at hview
    subst hview
    rw [bind_of_ok (accept_eq_ok.mpr (.inl ⟨harrow, rfl, rfl⟩)), if_pos rfl,
      bind_of_ok (expect_eq_ok.mpr ⟨hbrace, rfl, rfl⟩), bind_of_ok hread]
    exact ⟨s', rfl, h'⟩

theorem reads_initializer {name : String} {type : ValueType} {constant : Bool}
    {init : Initializer} (h : s.At d F (initializerWords d init ++ xs))
    (hxs : ∃ kind, Breaks d kind xs)
    (hinit : Node.Initializes d.vocabulary F.scope type init) :
    ∃ s', initializer name type constant s =
      .ok (init, (Declaration.symbol ⟨type, name, init, constant⟩).role) s' ∧ s'.At d F xs := by
  unfold initializer
  rw [bind_of_ok (seesCall_apply s)]
  cases init with
  | value x =>
    obtain ⟨⟨kind, hoperand, hword⟩, hstores⟩ := hinit
    have hcall : s.startsCall = false := h.not_startsCall hxs
    have hkind := h.kind hword
    have hbracket : s.current.kind ≠ .leftBracket := by
      rw [hkind]
      rintro rfl
      cases hoperand
    have hrule : s.next.scope.checkValue name type s.current = .ok () := by
      rw [Scope.checkValue_eq_ok, ReadState.next_scope, h.scope, h.lexeme]
      exact hstores
    rw [hcall, if_neg Bool.false_ne_true,
      bind_of_ok (accept_eq_ok.mpr (.inr ⟨hbracket, rfl, rfl⟩)), if_neg Bool.false_ne_true,
      bind_of_ok (operand_eq_ok.mpr ⟨hkind ▸ hoperand, rfl, rfl⟩),
      bind_of_ok (rule_eq_ok.mpr ⟨hrule, rfl⟩), h.lexeme]
    exact ⟨_, rfl, h.next⟩
  | call c =>
    obtain ⟨hchecked, hsupplies, hmatches⟩ := hinit
    have hcall : s.startsCall = true := by
      have h := h
      rw [initializerWords, callWords, List.cons_append, List.cons_append] at h
      exact h.startsCall hchecked.1
    have hlexeme : s.current.lexeme = c.function := h.lexeme
    obtain ⟨s', hread, h'⟩ := reads_call h hchecked
    have hresult : s'.scope.checkCallResult name type s.current = .ok () := by
      rw [Scope.checkCallResult_eq_ok, h'.scope, hlexeme]
      exact hsupplies
    have harity : s'.scope.checkArity s.current c = .ok () := by
      rw [Scope.checkArity_eq_ok _ hlexeme, h'.scope]
      exact hmatches
    rw [hcall, if_pos rfl, bind_of_ok (peek_apply s), bind_of_ok hread,
      bind_of_ok (rule_eq_ok.mpr ⟨hresult, rfl⟩), bind_of_ok (rule_eq_ok.mpr ⟨harity, rfl⟩)]
    exact ⟨s', rfl, h'⟩
  | array size values =>
    have hbracket := h.kind (.shared (by decide))
    have hcall : s.startsCall = false := by
      rw [Bool.eq_false_iff, Ne, ReadState.startsCall_iff h.tokens.final, hbracket]
      rintro ⟨⟨⟩, -⟩
    obtain ⟨s', hread, h'⟩ := reads_arrayShape h.next hxs hinit
    rw [hcall, if_neg Bool.false_ne_true,
      bind_of_ok (accept_eq_ok.mpr (.inl ⟨hbracket, rfl, rfl⟩)), if_pos rfl, bind_of_ok hread]
    exact ⟨s', rfl, h'⟩

/-! ## Statements without a body -/

/-- **A node without a body is read back** by a reader, up to the place of an
import: at the words of the node, and before words that break it off. -/
def ReadsBack (d : Dialect) (ctx : Context) (x : Read Node) (node : Node) : Prop :=
  ∀ {F : Facts} {s : ReadState} {xs : List String}, s.At d F (nodeWords d node ++ xs) →
    (∃ kind, Breaks d kind xs) → node.Checked d.vocabulary ctx F →
    ∃ node' s', x s = .ok node' s' ∧ node'.unplaced = node.unplaced ∧ s'.At d (F.enter node) xs

variable {ctx : Context}

theorem reads_declaration (v : Declaration) : ReadsBack d ctx declaration (.declare v) := by
  intro F s xs h hxs hchecked
  obtain ⟨htype, hstorable, hname, hnew, hinit⟩ := hchecked
  rw [nodeWords, List.cons_append] at h
  -- The mark of a changeable variable is there exactly if the variable is one.
  have hmark : ∃ s₁, accept .ch s.next = .ok (!v.constant) s₁ ∧
      s₁.At d F (d.text (.type v.type) :: v.name :: (initializerWords d v.initializer ++ xs)) := by
    have h₁ := h.next
    unfold declarationWords at h₁
    cases hconstant : v.constant with
    | true =>
      rw [if_pos hconstant] at h₁
      have hkind : s.next.current.kind ≠ .ch := by
        rw [h₁.kind (.ofHas htype rfl)]
        rintro ⟨⟩
      exact ⟨s.next, accept_eq_ok.mpr (.inr ⟨hkind, rfl, rfl⟩), h₁⟩
    | false =>
      rw [if_neg (by rw [hconstant]; exact Bool.false_ne_true)] at h₁
      exact ⟨s.next.next, accept_eq_ok.mpr (.inl ⟨h₁.kind (.shared (by decide)), rfl, rfl⟩),
        h₁.next⟩
  obtain ⟨s₁, hch, h₁⟩ := hmark
  have hinitializer : ∃ s₂, initializer v.name v.type v.constant s₁.next.next =
      .ok (v.initializer, v.symbol.role) s₂ ∧ s₂.At d F xs :=
    reads_initializer h₁.next.next hxs hinit
  obtain ⟨s₂, hread, h₂⟩ := hinitializer
  have hlexeme := h₁.next.lexeme
  refine ⟨.declare v, { s₂ with scope := s₂.scope.declared v.symbol }, declaration_eq_ok.mpr
    ⟨!v.constant, s₁, v.type, v.initializer, v.symbol.role, s₂, hch, h₁.kind (.ofHas htype rfl),
      hstorable, h₁.next.kind hname, ?_, ?_, ?_, ?_, ?_⟩, rfl, h₂.mapScope (·.declared v.symbol)⟩
  · rw [h₁.scope, hlexeme]; exact hnew
  · rw [hlexeme, Bool.not_not]; exact hread
  · rw [h₂.scope, hlexeme]; exact hnew
  · rw [hlexeme, Bool.not_not]
  · rw [hlexeme]; rfl

theorem reads_output (name : String) (i? : Option String) :
    ReadsBack d ctx output (.output name i?) := by
  intro F s xs h hxs hchecked
  obtain ⟨hname, hindex⟩ := hchecked
  rw [nodeWords, List.cons_append, List.cons_append] at h
  have hnone : i? = none → s.next.next.current.kind ≠ .leftBracket := by
    rintro rfl
    exact h.next.next.current_ne hxs rfl
  have hoperand : ∀ x, i? = some x → ∃ kind, kind.isOperand = true ∧ Lexeme d kind x := by
    rintro x rfl
    obtain ⟨_, _, -, kind, ho, hx, -⟩ := hindex
    exact ⟨kind, ho, hx⟩
  obtain ⟨index, s', hread, h', hlexeme, hkind⟩ := reads_index? _ h.next.next hoperand hnone
  refine ⟨.output name i?, s', output_eq_ok.mpr ⟨h.next.known hname, index, hread, ?_, ?_⟩, rfl, h'⟩
  · rw [Scope.checkOutput_eq_ok]
    rintro t rfl
    obtain rfl : some t.lexeme = i? := hlexeme
    obtain ⟨type, shape, ⟨m, hm, -, hshape⟩, kind, ho, hx, hselects⟩ := hindex
    obtain rfl := (hkind t rfl).unique hx
    rw [h'.scope, h.next.lexeme]
    exact ⟨m, shape, hm, hshape, hselects⟩
  · rw [h.next.lexeme, hlexeme]

/-- A value is read back, with the index it may have. An element of an array
whose value is known is written with the index, and the literal is found
again. -/
theorem reads_assigned (target : String) {type : ValueType} {value : AssignedValue}
    (h : s.At d F (assignedWords d value ++ xs)) (hxs : ∃ kind, Breaks d kind xs)
    (hvalue : Node.Assigns d.vocabulary F.scope type value) :
    s.current.kind.isOperand = true ∧ ∃ index s', index? s.next = .ok index s' ∧ s'.At d F xs ∧
      (∀ t, index = some t → F.scope.elementValue target type s.current t = .ok value) ∧
      (index = none → F.scope.Stores type s.current.lexeme ∧ value = .plain s.current.lexeme) := by
  cases value with
  | plain x =>
    obtain ⟨⟨kind, ho, hx⟩, hstores⟩ := hvalue
    refine ⟨h.kind hx ▸ ho, none, s.next, ?_, h.next, nofun, fun _ => ?_⟩
    · exact index?_eq_ok.mpr (.inl ⟨h.next.current_ne hxs rfl, rfl, rfl⟩)
    · rw [h.lexeme]
      exact ⟨hstores, rfl⟩
  | copied array i literal =>
    obtain ⟨⟨kind, ho, hx⟩, hbound, shape, harray, hlt, hliteral⟩ := hvalue
    have hi := Literal.index?_toString hbound
    obtain ⟨index, s', hread, h', hlexeme, hkind⟩ := reads_index? (some (toString i)) h.next
      (by rintro _ ⟨⟩; exact ⟨.number, rfl, .toString i⟩) nofun
    refine ⟨h.kind hx ▸ ho, index, s', hread, h', ?_, by rintro rfl; cases hlexeme⟩
    rintro t rfl
    obtain hlexeme : t.lexeme = toString i := Option.some.inj hlexeme
    have hnumber : t.kind = .number := (hlexeme ▸ hkind t rfl).unique (.toString i)
    have hname : t.kind ≠ .identifier := hnumber ▸ nofun
    refine (Scope.elementValue_eq_ok _).mpr ⟨shape, ?_, ?_, ?_⟩
    · rw [h.lexeme]; exact harray
    · rw [Scope.selects_literal _ hname, hlexeme]; exact ⟨i, hi, hlt⟩
    · rw [if_neg hname, hlexeme, h.lexeme]; exact ⟨i, literal, hi, hliteral, rfl⟩
  | element array x =>
    obtain ⟨⟨kind, ho, hx⟩, hindex, hdefined, shape, harray⟩ := hvalue
    obtain ⟨index, s', hread, h', hlexeme, hkind⟩ := reads_index? (some x) h.next
      (by rintro _ ⟨⟩; exact ⟨.identifier, rfl, hindex⟩) nofun
    refine ⟨h.kind hx ▸ ho, index, s', hread, h', ?_, by rintro rfl; cases hlexeme⟩
    rintro t rfl
    obtain hlexeme : t.lexeme = x := Option.some.inj hlexeme
    have hname : t.kind = .identifier := (hlexeme ▸ hkind t rfl).unique hindex
    refine (Scope.elementValue_eq_ok _).mpr ⟨shape, ?_, ?_, ?_⟩
    · rw [h.lexeme]; exact harray
    · rw [hname, Scope.selects_name, hlexeme]; exact hdefined
    · rw [if_pos hname, hlexeme, h.lexeme]

theorem reads_assignment (a : Assignment) : ReadsBack d ctx assignment (.assign a) := by
  intro F s xs h hxs hchecked
  obtain ⟨hname, type, htarget, hvalue⟩ := hchecked
  rw [nodeWords, List.cons_append, List.cons_append, List.append_assoc] at h
  have hoperand : ∀ x, a.index? = some x → ∃ kind, kind.isOperand = true ∧ Lexeme d kind x := by
    intro x hx
    rw [hx] at htarget
    obtain ⟨kind, ho, hword, -⟩ := htarget
    exact ⟨kind, ho, hword⟩
  -- Without an index the value follows the target, and it begins with an operand.
  have hnone : a.index? = none → s.next.next.current.kind ≠ .leftBracket := by
    intro hindex hbracket
    have h₂ := h.next.next
    rw [hindex] at h₂
    have ho := (reads_assigned a.target h₂ hxs hvalue).1
    rw [hbracket] at ho
    cases ho
  obtain ⟨targetIndex, s₁, hread₁, h₁, hlexeme, hkind⟩ :=
    reads_index? _ h.next.next hoperand hnone
  obtain ⟨ho, valueIndex, s₂, hread₂, h₂, helement, hplain⟩ :=
    reads_assigned s.next.current.lexeme h₁ hxs hvalue
  refine ⟨.assign a, s₂, assignment_eq_ok.mpr ⟨h.next.kind hname, targetIndex, s₁, valueIndex, type,
    a.value, hread₁, ho, hread₂, ?_, ?_, ?_⟩, rfl, h₂⟩
  · rw [Scope.checkTarget_eq_ok, h₂.scope, h.next.lexeme]
    rw [← hlexeme] at htarget
    cases targetIndex with
    | none => exact htarget
    | some t =>
      obtain ⟨kind, -, hword, htarget⟩ := htarget
      obtain rfl := (hkind t rfl).unique hword
      exact htarget
  · rw [h₂.scope]
    cases valueIndex with
    | none => exact hplain rfl
    | some t => exact helement t rfl
  · rw [h.next.lexeme, hlexeme]

theorem reads_save (name : String) : ReadsBack d ctx save (.save name) := by
  intro F s xs h hxs hchecked
  obtain ⟨hname, hsaves⟩ := hchecked
  rw [nodeWords] at h
  have hlexeme := h.next.lexeme
  refine ⟨.save name, _, save_eq_ok.mpr ⟨h.next.kind hname, ?_, ?_, rfl⟩, rfl, ?_⟩
  · rw [h.scope, hlexeme]; exact hsaves
  · rw [hlexeme]
  · refine h.next.next.withFacts rfl rfl ?_
    rw [ReadState.facts_withScope, h.next.next.facts, h.scope, hlexeme]
    rfl

theorem reads_restore (name : String) : ReadsBack d ctx restore (.restore name) := by
  intro F s xs h hxs hchecked
  obtain ⟨hname, hsaves⟩ := hchecked
  rw [nodeWords] at h
  have hlexeme := h.next.lexeme
  refine ⟨.restore name, _, restore_eq_ok.mpr ⟨h.next.kind hname, ?_, ?_, rfl⟩, rfl, ?_⟩
  · rw [h.scope, hlexeme]; exact hsaves
  · rw [hlexeme]
  · rw [h.scope, hlexeme, Facts.enter]
    by_cases hbackup : F.scope.hasBackup name = true
    · rw [if_pos hbackup, if_pos hbackup]
      exact h.next.next
    · rw [if_neg hbackup, if_neg hbackup]
      refine h.next.next.withFacts rfl rfl ?_
      have hwarnings : s.warnings.map Warning.unplaced = F.warnings :=
        congrArg Facts.warnings h.facts
      show Facts.mk _ _ (List.map _ (_ ++ [_])) = _
      rw [List.map_append, hwarnings, h.next.next.scope, h.next.next.imports]
      rfl

theorem reads_giveBack (value? : Option String) :
    ReadsBack d ctx (giveBack ctx) (.giveBack value?) := by
  intro F s xs h hxs hchecked
  obtain ⟨hoperand, signature, hfunction, hreturns⟩ := hchecked
  rw [nodeWords, List.cons_append] at h
  rw [← h.scope] at hreturns
  cases value? with
  | none =>
    have hno : ¬SeesReturned s.next := by
      rintro ⟨ho, hcall⟩
      obtain ⟨kind, hkind⟩ := hxs
      obtain ⟨hk, -, hcalls⟩ := h.next.breaks hkind
      rw [hcalls (hk ▸ ho)] at hcall
      cases hcall
    refine ⟨.giveBack none, s.next, giveBack_eq_ok.mpr ⟨signature, none, hfunction, ?_, hreturns,
      rfl, ?_⟩, rfl, h.next⟩
    · rw [if_neg hno]
    · rw [if_neg hno]
  | some x =>
    obtain ⟨kind, ho, hx⟩ := hoperand x rfl
    have hyes : SeesReturned s.next := ⟨h.next.kind hx ▸ ho, h.next.not_startsCall hxs⟩
    refine ⟨.giveBack (some x), s.next.next, giveBack_eq_ok.mpr ⟨signature, some x, hfunction, ?_,
      hreturns, rfl, ?_⟩, rfl, h.next.next⟩
    · rw [if_pos hyes, h.next.lexeme]
    · rw [if_pos hyes]

theorem reads_calculation (c : Calculation) :
    ReadsBack d ctx (calculation c.op) (.calculate c) := by
  intro F s xs h hxs hchecked
  obtain ⟨hop, hleft, hright, hstored⟩ := hchecked
  rw [nodeWords, List.cons_append] at h
  have h₁ := h.next
  unfold calculationWords at h₁
  unfold Node.Stored at hstored
  have hl := h₁.known hleft
  have hr := h₁.next.known hright
  have hleftName := h₁.lexeme
  have hrightName := h₁.next.lexeme
  cases hdestination : c.destination? with
  | some name =>
    rw [hdestination] at h₁ hstored
    obtain ⟨hinto, hname, hreceives⟩ := hstored
    refine ⟨.calculate c, _, calculation_eq_ok.mpr ⟨hl, hr, .inl ⟨?_, ?_, ?_, ?_, rfl⟩⟩, rfl,
      h₁.next.next.next.next⟩
    · exact h₁.next.next.kind (.ofHas hinto rfl)
    · exact h₁.next.next.next.kind hname
    · rw [h.scope, h₁.next.next.next.lexeme]; exact hreceives
    · rw [hleftName, hrightName, h₁.next.next.next.lexeme, ← hdestination]
  | none =>
    rw [hdestination] at h₁ hstored
    obtain ⟨hname, hreceives⟩ := hstored
    refine ⟨.calculate c, _, calculation_eq_ok.mpr ⟨hl, hr, .inr ⟨?_, ?_, ?_, ?_, rfl⟩⟩, rfl,
      h₁.next.next⟩
    · exact h₁.next.next.current_ne hxs rfl
    · exact h₁.kind hname
    · rw [h.scope, hleftName]; exact hreceives
    · rw [hleftName, hrightName, ← hdestination]

theorem reads_callStatement (c : Call) : ReadsBack d ctx callStatement (.call c) := by
  intro F s xs h hxs hchecked
  obtain ⟨hcall, hmatches⟩ := hchecked
  rw [nodeWords] at h
  obtain ⟨s', hread, h'⟩ := reads_call h hcall
  have harity : s'.scope.checkArity s.current c = .ok () := by
    rw [Scope.checkArity_eq_ok _ h.lexeme, h'.scope]
    exact hmatches
  refine ⟨.call c, s', ?_, rfl, h'⟩
  unfold callStatement
  rw [bind_of_ok (peek_apply s), bind_of_ok hread, bind_of_ok (rule_eq_ok.mpr ⟨harity, rfl⟩)]
  rfl

theorem reads_libraryImport (name : String) (span : Span) :
    ReadsBack d ctx (libraryImport ctx) (.useLibrary name span) := by
  intro F s xs h hxs hchecked
  obtain ⟨htop, hlib, ⟨x, hx, rfl⟩, hfresh⟩ := hchecked
  rw [nodeWords, hx.libraryName_eq] at h
  have hlexeme := h.next.lexeme
  refine ⟨_, _, libraryImport_eq_ok.mpr ⟨htop, h.next.kind hx, ?_, rfl, rfl⟩, ?_, ?_⟩
  · rw [h.imports, hlexeme]; exact hfresh
  · rw [hlexeme]; rfl
  · refine h.next.next.withFacts rfl rfl ?_
    show Facts.mk _ (_ :: _) _ = _
    rw [hlexeme, h.imports, ← h.next.next.facts]
    rfl

theorem reads_qualifiedCall (library : String) (c : Call) :
    ReadsBack d ctx qualifiedCall (.qualifiedCall library c) := by
  intro F s xs h hxs hchecked
  obtain ⟨himport, ⟨x, hx, rfl⟩, hcall⟩ := hchecked
  rw [nodeWords, hx.qualifier_eq, List.cons_append] at h
  have hstarts : s.next.startsCall = true := h.next.startsCall hcall.1
  have hcontains : s.next.imports.contains (qualifiedLibrary s.current.lexeme) = true := by
    rw [h.next.imports, h.lexeme, List.contains_iff_mem]
    exact himport
  obtain ⟨s', hread, h'⟩ := reads_call h.next hcall
  refine ⟨.qualifiedCall (qualifiedLibrary x) c, s', ?_, rfl, h'⟩
  unfold qualifiedCall
  rw [bind_of_ok (advance_apply s), bind_of_ok (get_apply s.next), if_pos hcontains,
    bind_of_ok (seesCall_apply s.next), if_pos hstarts, bind_of_ok hread, h.lexeme]
  rfl

/-- A unit begins with its namespace. At any other place the words would not
be read. -/
theorem reads_namespaceInit (name : String) {F : Facts} {s : ReadState}
    (h : s.At d F (nodeWords d (.openNamespace name) ++ xs)) (hstart : s.taken = 0)
    (hchecked : (Node.openNamespace name).Checked d.vocabulary ctx F) :
    ∃ s', namespaceInit s = .ok (.openNamespace name) s' ∧ s'.At d F xs := by
  obtain ⟨-, x, hx, rfl⟩ := hchecked
  rw [nodeWords, hx.libraryName_eq] at h
  refine ⟨s.next.next, namespaceInit_eq_ok.mpr ⟨hstart, h.next.kind hx, ?_, rfl⟩, h.next.next⟩
  rw [h.next.lexeme]

end Read

end MapleCompiler
