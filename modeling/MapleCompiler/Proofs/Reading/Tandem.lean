import Mathlib.Data.List.Forall2
import MapleCompiler.Proofs.Reading.Changes
import MapleCompiler.Proofs.Reading.Pairing

/-!
# Readers in tandem

What is known about readers is said once for each of them, in one kind of statement about
two readings: of two lists of tokens, with a reader for each list (`Tandem.Tells`). The
first reading is known on its own. It moves on as the cursor allows, and if it succeeds, its
changes are told by what it gives back. As long as its cursor is *near*, the second reading
stays with it: it succeeds with a related result or fails with a related error, in a state
that is related too.

Much follows from such a statement by choosing the two readings. If the lists are
counterparts of each other all the way, they hold the same program. If they are the same up
to an index, they cannot be told apart before it. If both readings are of one list but with
different budgets, the budgets do not matter. And if the second reading is that of a list
by itself, what remains is what the first reading does.

Every statement says from which cursor on it holds, and to which cursor a success leads.
Loops are written with a budget; a round of a loop takes a token, so with enough rounds what
comes after the last of them is never asked for (`Tandem.iterate_of_enough`).
-/

namespace MapleCompiler

/-! ## Kinds of words -/

namespace TokenKind

/-- Whether taking a word changes nothing else: it is not `load`, which may
warn, and not the end mark, which is never taken. -/
def isQuiet : TokenKind → Bool
  | .load | .eof => false
  | _ => true

variable {kind : TokenKind}

theorem ne_of_isQuiet (h : kind.isQuiet = true) : kind ≠ .load ∧ kind ≠ .eof := by
  constructor
  · rintro rfl
    cases h
  · rintro rfl
    cases h

theorem isQuiet_of_isOperand (h : kind.isOperand = true) : kind.isQuiet = true := by
  cases kind <;> first | rfl | cases h

theorem isQuiet_of_valueType? {type : ValueType} (h : kind.valueType? = some type) :
    kind.isQuiet = true := by
  cases kind <;> first | rfl | cases h

end TokenKind

/-! ## States from which reading can go on -/

namespace ReadState

variable {s s' : ReadState}

/-- **Reading can go on from a state**: none of the tokens that are left is an
end mark, and one stands behind them. -/
structure Proper (s : ReadState) : Prop where
  words : ∀ t ∈ s.pending, t.kind ≠ .eof
  final : s.final.kind = .eof

/-- Reading can go on from the start of any list: its words are no end marks,
and an end mark is put behind them if the list has none. -/
theorem proper_ofTokens (tokens : List Token) : (ofTokens tokens).Proper :=
  ⟨fun _ => Token.kind_of_mem_words, Token.kind_endMark tokens⟩

theorem length_ofTokens (tokens : List Token) :
    (ofTokens tokens).taken + (ofTokens tokens).pending.length = (Token.words tokens).length :=
  Nat.zero_add _

/-- At a cursor reading can go on, and that is all that most statements ask of
a state. -/
theorem AtCursor.proper {tokens : List Token} (h : s.AtCursor tokens) : s.Proper := by
  refine ⟨fun t ht => ?_, h.final_kind⟩
  rw [h.pending_eq] at ht
  exact Token.kind_of_mem_words (List.mem_of_mem_drop ht)

/-- At the end mark and only there, nothing is left. -/
theorem Proper.pending_eq_nil_iff (h : s.Proper) : s.pending = [] ↔ s.current.kind = .eof := by
  unfold current
  cases hpending : s.pending with
  | nil => exact ⟨fun _ => h.final, fun _ => rfl⟩
  | cons t rest =>
    refine ⟨nofun, fun hkind => absurd hkind (h.words t ?_)⟩
    rw [hpending]
    exact List.mem_cons_self

/-- The tokens that are left after some moves were left before, with the end
mark. By induction on the moves: one takes the first token, and the other
leaves the tokens alone. -/
theorem Leads.subset (h : s.Leads s') : s'.pending ++ [s'.final] ⊆ s.pending ++ [s.final] := by
  induction h with
  | refl => exact List.Subset.refl _
  | @tail s₁ s₂ _ hmove ih =>
    refine List.Subset.trans ?_ ih
    cases hmove with
    | take =>
      intro t ht
      rw [next_final, next_pending, List.mem_append] at ht
      exact List.mem_append.mpr (ht.imp_left List.mem_of_mem_tail)
    | know hpending hfinal _ =>
      rw [hpending, hfinal]
      exact List.Subset.refl _

theorem Leads.proper (h : s.Leads s') (hs : s.Proper) : s'.Proper := by
  induction h with
  | refl => exact hs
  | @tail s₁ s₂ _ hmove ih =>
    cases hmove with
    | take =>
      refine ⟨fun t ht => ih.words t ?_, s₁.next_final ▸ ih.final⟩
      rw [next_pending] at ht
      exact List.mem_of_mem_tail ht
    | know hpending hfinal _ => exact ⟨hpending ▸ ih.words, hfinal ▸ ih.final⟩

/-- Every token is left or was taken. The sum stays along any run, which is
how a budget from the tokens that are left is compared with the length of the
list. -/
theorem Leads.length_eq (h : s.Leads s') :
    s'.taken + s'.pending.length = s.taken + s.pending.length := by
  induction h with
  | refl => rfl
  | @tail s₁ s₂ _ hmove ih =>
    rw [← ih]
    cases hmove with
    | take =>
      unfold next
      split
      · rfl
      · next hpending =>
        rw [hpending, List.length_cons]
        dsimp only
        omega
    | know hpending _ htaken => rw [hpending, htaken]

end ReadState

/-! ## Two readings -/

/-- **Two readings**: what they have in common, how long they are, and how far
the second of them is followed. The second list is only known to be like the
first one as long as the cursor is near, and near cursors come before the
others. -/
structure Tandem extends Pairing where
  /-- The cursors at which the second reading is followed. -/
  near : Nat → Prop
  /-- The number of tokens of the first reading, without the end mark. -/
  length : Nat
  /-- The number of tokens of the second reading. -/
  length' : Nat
  near_of_le {i j : Nat} : i ≤ j → near j → near i

namespace Tandem

variable (T : Tandem)

/-- **Tokens that are left in the two readings**, with their end marks, from a
cursor on. They are counterparts as long as the cursor is near; behind that,
the first of them are still of the same kind. -/
inductive Alike : Nat → List Token → Token → List Token → Token → Prop
  | cons {i : Nat} {t t' final final' : Token} {rest rest' : List Token} (h : T.token t t')
      (hrest : Alike (i + 1) rest final rest' final') :
      Alike i (t :: rest) final (t' :: rest') final'
  | nil {i : Nat} {final final' : Token} (h : T.token final final') : Alike i [] final [] final'
  | far {i : Nat} {final final' : Token} {pending pending' : List Token} (hfar : ¬T.near i)
      (hkind : (pending'.headD final').kind = (pending.headD final).kind) :
      Alike i pending final pending' final'

/-- **A state of the first reading**, whose tokens all have a counterpart. -/
structure First (s : ReadState) : Prop where
  proper : s.Proper
  length : s.taken + s.pending.length = T.length
  partner : ∀ t ∈ s.pending ++ [s.final], ∃ t', T.token t t'

/-- **States that the two readings reach together.** The cursors are the same
and so is what is known, up to names; the warnings were given in the same
order. -/
structure States (s s' : ReadState) : Prop where
  first : T.First s
  proper : s'.Proper
  length : s'.taken + s'.pending.length = T.length'
  tokens : T.Alike s.taken s.pending s.final s'.pending s'.final
  taken : s'.taken = s.taken
  scope : s'.scope = s.scope.rename T.rename
  imports : s'.imports = s.imports
  warnings : List.Forall₂ T.warning s.warnings s'.warnings

variable {T} {s s' : ReadState}

/-- A run of the first reading stays one, wherever it leads: its tokens are
some of those that were there before. -/
theorem First.of_leads {s₁ : ReadState} (h : T.First s) (hleads : s.Leads s₁) : T.First s₁ :=
  ⟨hleads.proper h.proper, hleads.length_eq.trans h.length,
    fun t ht => h.partner t (hleads.subset ht)⟩

/-- The token that is looked at has a counterpart, also where the second
reading is not followed any more. -/
theorem First.exists_current (h : T.First s) : ∃ t', T.token s.current t' := by
  refine h.partner _ ?_
  unfold ReadState.current
  cases s.pending <;> simp

namespace States

theorem current (h : T.States s s') (hnear : T.near s.taken) : T.token s.current s'.current := by
  have htokens := h.tokens
  unfold ReadState.current
  generalize s.pending = pending, s'.pending = pending' at htokens
  cases htokens with
  | cons ht _ => exact ht
  | nil ht => exact ht
  | far hfar _ => exact absurd hnear hfar

/-- Both readings take a token together. The second one is followed up to the
token that was taken, and behind it the kinds still agree for one more
token. -/
theorem next (h : T.States s s') (hnear : T.near s.taken) : T.States s.next s'.next := by
  have hfirst := h.first.of_leads s.leads_next
  have hproper := s'.leads_next.proper h.proper
  have hlength := s'.leads_next.length_eq.trans h.length
  have htokens : T.Alike s.next.taken s.pending.tail s.final s'.pending.tail s'.final ∧
      s'.next.taken = s.next.taken := by
    have htokens := h.tokens
    have htaken := h.taken
    unfold ReadState.next
    generalize s.pending = pending, s'.pending = pending' at htokens
    cases htokens with
    | cons _ hrest => exact ⟨hrest, congrArg (· + 1) htaken⟩
    | nil ht => exact ⟨.nil ht, htaken⟩
    | far hfar _ => exact absurd hnear hfar
  refine ⟨hfirst, hproper, hlength, ?_, htokens.2, ?_, ?_, ?_⟩
  · rw [s.next_final, s'.next_final, s.next_pending, s'.next_pending]
    exact htokens.1
  · rw [s.next_scope, s'.next_scope, h.scope]
  · rw [s.next_imports, s'.next_imports, h.imports]
  · rw [s.next_warnings, s'.next_warnings]
    exact h.warnings

/-- Whether a call begins is decided by the token at the cursor and the kind
of the next one, which is known even where the second reading is not followed
any more. -/
theorem startsCall (h : T.States s s') (hnear : T.near s.taken) :
    s'.startsCall = s.startsCall := by
  have htokens := h.tokens
  rw [Bool.eq_iff_iff, ReadState.startsCall_iff h.proper.final,
    ReadState.startsCall_iff h.first.proper.final, T.kind_eq (h.current hnear)]
  refine and_congr_right fun _ => ?_
  suffices hkind : s'.next.current.kind = s.next.current.kind by rw [hkind]
  unfold ReadState.current
  rw [s.next_final, s'.next_final, s.next_pending, s'.next_pending]
  generalize s.pending = pending, s'.pending = pending' at htokens
  cases htokens with
  | cons _ hrest =>
    cases hrest with
    | cons ht _ => exact T.kind_eq ht
    | nil ht => exact T.kind_eq ht
    | far _ hkind => exact hkind
  | nil ht => exact T.kind_eq ht
  | far hfar _ => exact absurd hnear hfar

/-- What is known may change in both states alike. The tokens stay as they
are, so the two readings are still together. -/
theorem know (h : T.States s s') (imports : List String) {scope scope' : Scope}
    {warnings warnings' : List Warning} (hscope : scope' = scope.rename T.rename)
    (hwarnings : List.Forall₂ T.warning warnings warnings') :
    T.States { s with scope := scope, imports := imports, warnings := warnings }
      { s' with scope := scope', imports := imports, warnings := warnings' } :=
  ⟨h.first.of_leads (ReadState.leads_know rfl rfl rfl), ⟨h.proper.words, h.proper.final⟩,
    h.length, h.tokens, h.taken, hscope, rfl, hwarnings⟩

theorem mapScope (h : T.States s s') {scope scope' : Scope}
    (hscope : scope' = scope.rename T.rename) :
    T.States { s with scope := scope } { s' with scope := scope' } := by
  have hknow := h.know s.imports hscope h.warnings
  rw [← h.imports] at hknow
  rwa [← h.imports]

theorem warn (h : T.States s s') {w w' : Warning} (hw : T.warning w w') :
    T.States { s with warnings := s.warnings ++ [w] }
      { s' with warnings := s'.warnings ++ [w'] } := by
  have hknow := h.know s.imports h.scope (List.rel_append h.warnings (.cons hw .nil))
  rw [← h.imports] at hknow
  rwa [← h.imports]

theorem isDefined (h : T.States s s') (x : String) :
    s'.scope.isDefined (T.rename x) = s.scope.isDefined x := by
  rw [h.scope, Scope.isDefined_rename T.rename_injective]

theorem hasBackup (h : T.States s s') (x : String) :
    s'.scope.hasBackup (T.rename x) = s.scope.hasBackup x := by
  rw [h.scope, Scope.hasBackup_rename T.rename_injective]

end States

/-! ## What two readers do -/

variable {α β γ δ : Type}

variable (T) in
/-- **What two readers do from states of the two readings.** The relation is
one of the state that the first of them starts from, of the results, and of
the state that it leaves; there is a second result for it even where the
second reading is not followed. -/
structure Result (R : ReadState → α → β → ReadState → Prop) (x : Read α) (y : Read β)
    (s : ReadState) : Prop where
  ok : ∀ a s₁, x s = .ok a s₁ → s.Leads s₁ ∧ (∃ b, R s a b s₁) ∧
    ∀ s', T.States s s' → T.near s₁.taken →
      ∃ b s₁', R s a b s₁ ∧ y s' = .ok b s₁' ∧ T.States s₁ s₁'
  error : ∀ e s₁, x s = .error e s₁ → s.Leads s₁ ∧
    ∀ s', T.States s s' → T.near s₁.taken →
      ∃ e' s₁', T.error e e' ∧ y s' = .error e' s₁' ∧ T.States s₁ s₁'

variable {R : ReadState → α → β → ReadState → Prop} {Q : ReadState → γ → δ → ReadState → Prop}
  {x : Read α} {y : Read β} {f : α → Read γ} {g : β → Read δ}

namespace Result

/-- A first reader that succeeds. What is left to say is what the second one
does in the states that go with this one, if it is followed that far. -/
theorem of_ok {a : α} {s₁ : ReadState} (hx : x s = .ok a s₁) (hleads : s.Leads s₁)
    (hsome : ∃ b, R s a b s₁) (hboth : ∀ s', T.States s s' → T.near s₁.taken →
      ∃ b s₁', R s a b s₁ ∧ y s' = .ok b s₁' ∧ T.States s₁ s₁') : T.Result R x y s := by
  constructor
  · intro a' s₁' hx'
    obtain ⟨rfl, rfl⟩ := EStateM.Result.ok.inj (hx.symm.trans hx')
    exact ⟨hleads, hsome, hboth⟩
  · intro e s₁' hx'
    cases hx.symm.trans hx'

/-- A first reader that fails. The second one has to fail too, with a related
error. -/
theorem of_error {e : CompileError} {s₁ : ReadState} (hx : x s = .error e s₁)
    (hleads : s.Leads s₁) (hboth : ∀ s', T.States s s' → T.near s₁.taken →
      ∃ e' s₁', T.error e e' ∧ y s' = .error e' s₁' ∧ T.States s₁ s₁') : T.Result R x y s := by
  constructor
  · intro a s₁' hx'
    cases hx.symm.trans hx'
  · intro e' s₁' hx'
    obtain ⟨rfl, rfl⟩ := EStateM.Result.error.inj (hx.symm.trans hx')
    exact ⟨hleads, hboth⟩

/-- Only what the readers do at the states matters. So a step that both of
them make may be taken off, as long as it is known what it does. -/
theorem congr {x₁ : Read α} {y₁ : Read β} (h : T.Result R x₁ y₁ s) (hx : x s = x₁ s)
    (hy : ∀ s', T.States s s' → y s' = y₁ s') : T.Result R x y s := by
  constructor
  · intro a s₁ ha
    obtain ⟨hleads, hsome, hboth⟩ := h.ok a s₁ (hx ▸ ha)
    exact ⟨hleads, hsome, fun s' hs' => hy s' hs' ▸ hboth s' hs'⟩
  · intro e s₁ he
    obtain ⟨hleads, hboth⟩ := h.error e s₁ (hx ▸ he)
    exact ⟨hleads, fun s' hs' => hy s' hs' ▸ hboth s' hs'⟩

/-- The second reader may depend on the token that it looks at, which is a
counterpart of the one that the first reader looks at. Where the second
reading is not followed any more, some counterpart takes the place of that
token. -/
theorem of_partner {k : Token → Read β} (hs : T.First s)
    (h : ∀ t', T.token s.current t' → T.Result R x (k t') s)
    (hy : ∀ s', y s' = k s'.current s') : T.Result R x y s := by
  obtain ⟨t', ht'⟩ := hs.exists_current
  constructor
  · intro a s₁ ha
    obtain ⟨hleads, hsome, -⟩ := (h t' ht').ok a s₁ ha
    refine ⟨hleads, hsome, fun s' hs' hnear => ?_⟩
    have hcurrent := hs'.current (T.near_of_le hleads.taken_le hnear)
    rw [hy]
    exact ((h _ hcurrent).ok a s₁ ha).2.2 s' hs' hnear
  · intro e s₁ he
    obtain ⟨hleads, -⟩ := (h t' ht').error e s₁ he
    refine ⟨hleads, fun s' hs' hnear => ?_⟩
    have hcurrent := hs'.current (T.near_of_le hleads.taken_le hnear)
    rw [hy]
    exact ((h _ hcurrent).error e s₁ he).2 s' hs' hnear

/-- What is said about results may be weakened, with what is known of the
run. -/
theorem imp {Q : ReadState → α → β → ReadState → Prop} (h : T.Result R x y s)
    (himp : ∀ a b s₁, x s = .ok a s₁ → s.Leads s₁ → R s a b s₁ → Q s a b s₁) :
    T.Result Q x y s := by
  refine ⟨fun a s₁ ha => ?_, h.error⟩
  obtain ⟨hleads, ⟨b, hb⟩, hboth⟩ := h.ok a s₁ ha
  refine ⟨hleads, ⟨b, himp a b s₁ ha hleads hb⟩, fun s' hs' hnear => ?_⟩
  obtain ⟨b, s₁', hb, hy, hs₁'⟩ := hboth s' hs' hnear
  exact ⟨b, s₁', himp a b s₁ ha hleads hb, hy, hs₁'⟩

/-- **Chains of readers.** The second part is known from where the first one
led. That the second reading is near at the end means that it was near in
between, since the cursor does not go back; so it can be followed through both
parts. -/
theorem bind (hx : T.Result R x y s) (hs : T.First s)
    (hf : ∀ a b s₁, R s a b s₁ → T.First s₁ → T.Result (fun _ => Q s) (f a) (g b) s₁) :
    T.Result Q (x >>= f) (y >>= g) s := by
  constructor
  · intro c s₂ h
    obtain ⟨a, s₁, ha, hc⟩ := Read.bind_eq_ok.mp h
    obtain ⟨hleads, ⟨b, hb⟩, hboth⟩ := hx.ok a s₁ ha
    have hs₁ := hs.of_leads hleads
    obtain ⟨hleads', hsome, -⟩ := (hf a b s₁ hb hs₁).ok c s₂ hc
    refine ⟨hleads.trans hleads', hsome, fun s' hs' hnear => ?_⟩
    obtain ⟨b, s₁', hb, hy, hs₁'⟩ := hboth s' hs' (T.near_of_le hleads'.taken_le hnear)
    obtain ⟨d, s₂', hd, hg, hs₂'⟩ := ((hf a b s₁ hb hs₁).ok c s₂ hc).2.2 s₁' hs₁' hnear
    exact ⟨d, s₂', hd, Read.bind_eq_ok.mpr ⟨b, s₁', hy, hg⟩, hs₂'⟩
  · intro e s₂ h
    obtain he | ⟨a, s₁, ha, he⟩ := Read.bind_eq_error.mp h
    · obtain ⟨hleads, hboth⟩ := hx.error e s₂ he
      refine ⟨hleads, fun s' hs' hnear => ?_⟩
      obtain ⟨e', s₂', he', hy, hs₂'⟩ := hboth s' hs' hnear
      exact ⟨e', s₂', he', Read.bind_eq_error.mpr (.inl hy), hs₂'⟩
    · obtain ⟨hleads, ⟨b, hb⟩, hboth⟩ := hx.ok a s₁ ha
      have hs₁ := hs.of_leads hleads
      obtain ⟨hleads', -⟩ := (hf a b s₁ hb hs₁).error e s₂ he
      refine ⟨hleads.trans hleads', fun s' hs' hnear => ?_⟩
      obtain ⟨b, s₁', hb, hy, hs₁'⟩ := hboth s' hs' (T.near_of_le hleads'.taken_le hnear)
      obtain ⟨e', s₂', he', hg, hs₂'⟩ := ((hf a b s₁ hb hs₁).error e s₂ he).2 s₁' hs₁' hnear
      exact ⟨e', s₂', he', Read.bind_eq_error.mpr (.inr ⟨b, s₁', hy, hg⟩), hs₂'⟩

end Result

/-! ## Statements about readers -/

variable (T) in
/-- **Two readers that stay together**, from a cursor on and at a token of
some kinds. If they succeed, the cursor has come to `d`. -/
structure Loosely (K : TokenKind → Prop) (c d : Nat) (R : α → β → Prop) (x : Read α)
    (y : Read β) : Prop where
  on : ∀ s, T.First s → c ≤ s.taken → K s.current.kind →
    T.Result (fun _ a b s₁ => d ≤ s₁.taken ∧ R a b) x y s

variable (T) in
/-- **Two readers that stay together and tell what they change.** The changes
of the first reader have events, and these are related to the results. -/
structure Tells (K : TokenKind → Prop) (c d : Nat) (V : List Event → α → β → Prop) (x : Read α)
    (y : Read β) : Prop where
  on : ∀ s, T.First s → c ≤ s.taken → K s.current.kind →
    T.Result (fun s a b s₁ => d ≤ s₁.taken ∧ ∃ events, s.Changes events s₁ ∧ V events a b) x y s

/-- No events, and related results. -/
def Quiet (R : α → β → Prop) (events : List Event) (a : α) (b : β) : Prop :=
  events = [] ∧ R a b

variable (T) in
/-- **Two readers that stay together without an event**, wherever they
read. -/
abbrev Reads (c d : Nat) (R : α → β → Prop) (x : Read α) (y : Read β) : Prop :=
  T.Tells (fun _ => True) c d (Quiet R) x y

variable {K : TokenKind → Prop} {c d e : Nat} {S : α → β → Prop} {U : γ → δ → Prop}
  {V : List Event → α → β → Prop} {W : List Event → γ → δ → Prop}

namespace Tells

/-- **Chains of readers tell the events of their parts**, one after the other.
The second part is read after the cursor that the first one led to, and its
statement may depend on the events so far. -/
theorem bindAll (hx : T.Tells K c d V x y) (hf : ∀ events a b, V events a b →
    T.Tells (fun _ => True) d e (fun more => W (events ++ more)) (f a) (g b)) :
    T.Tells K c e W (x >>= f) (y >>= g) := by
  refine ⟨fun s hs hc hk => (hx.on s hs hc hk).bind hs fun a b s₁ hab hs₁ => ?_⟩
  obtain ⟨hd, events, hchanges, hV⟩ := hab
  refine ((hf events a b hV).on s₁ hs₁ hd trivial).imp fun c' d' s₂ _ _ hcd => ?_
  obtain ⟨he, more, hmore, hW⟩ := hcd
  exact ⟨he, _, hchanges.trans hmore, hW⟩

/-- **Chains whose first part is quiet.** Most parts of a statement are, so
most chains need not speak of events. -/
theorem bind (hx : T.Tells K c d (Quiet S) x y)
    (hf : ∀ a b, S a b → T.Tells (fun _ => True) d e W (f a) (g b)) :
    T.Tells K c e W (x >>= f) (y >>= g) :=
  hx.bindAll fun events a b hab => by
    obtain ⟨rfl, hS⟩ := hab
    exact hf a b hS

/-- A chain whose first readers give the same: keywords, types, sizes and
answers do not depend on the names in a text. -/
theorem bindEq {x y : Read α} {f : α → Read γ} {g : α → Read δ}
    (hx : T.Tells K c d (Quiet Eq) x y)
    (hf : ∀ a, T.Tells (fun _ => True) d e W (f a) (g a)) :
    T.Tells K c e W (x >>= f) (y >>= g) :=
  hx.bind fun a _ hab => hab ▸ hf a

/-- A chain whose first part is known to end at certain tokens. The second
part has to be known only for them, as for the word that closes a body. -/
theorem bindEnd {L : TokenKind → Prop} (hx : T.Tells K c d V x y)
    (hend : ∀ s a s₁, T.First s → c ≤ s.taken → K s.current.kind → x s = .ok a s₁ →
      L s₁.current.kind)
    (hf : ∀ events a b, V events a b →
      T.Tells L d e (fun more => W (events ++ more)) (f a) (g b)) :
    T.Tells K c e W (x >>= f) (y >>= g) := by
  refine ⟨fun s hs hc hk => ?_⟩
  have hx := (hx.on s hs hc hk).imp (Q := fun s a b s₁ =>
      (d ≤ s₁.taken ∧ ∃ events, s.Changes events s₁ ∧ V events a b) ∧ L s₁.current.kind)
    fun a b s₁ ha _ hab => ⟨hab, hend s a s₁ hs hc hk ha⟩
  refine hx.bind hs fun a b s₁ hab hs₁ => ?_
  obtain ⟨⟨hd, events, hchanges, hV⟩, hL⟩ := hab
  refine ((hf events a b hV).on s₁ hs₁ hd hL).imp fun c' d' s₂ _ _ hcd => ?_
  obtain ⟨he, more, hmore, hW⟩ := hcd
  exact ⟨he, _, hchanges.trans hmore, hW⟩

theorem imp {V' : List Event → α → β → Prop} (h : T.Tells K c d V x y)
    (himp : ∀ events a b, V events a b → V' events a b) : T.Tells K c d V' x y := by
  refine ⟨fun s hs hc hk => (h.on s hs hc hk).imp fun a b s₁ _ _ hab => ?_⟩
  obtain ⟨hd, events, hchanges, hV⟩ := hab
  exact ⟨hd, events, hchanges, himp events a b hV⟩

/-- A success leads at least as far as it is said to, and no reader goes back.
So a statement holds from later cursors on, and the cursor that it promises
may be lowered, also to the one it began at. -/
theorem mono (h : T.Tells K c d V x y) {c' d' : Nat} (hc : c ≤ c') (hd : d' ≤ d ∨ d' ≤ c') :
    T.Tells K c' d' V x y := by
  refine ⟨fun s hs hc' hk => (h.on s hs (hc.trans hc') hk).imp fun a b s₁ _ hleads hab => ?_⟩
  have htaken := hleads.taken_le
  exact ⟨by omega, hab.2⟩

theorem narrow (h : T.Tells (fun _ => True) c d V x y) : T.Tells K c d V x y :=
  ⟨fun s hs hc _ => h.on s hs hc trivial⟩

theorem loosely (h : T.Tells K c d (Quiet S) x y) : T.Loosely K c d S x y :=
  ⟨fun s hs hc hk => (h.on s hs hc hk).imp fun _ _ _ _ _ hab =>
    ⟨hab.1, hab.2.choose_spec.2.2⟩⟩

/-- Readers that branch. The conditions may be stated differently in the two
readings, as long as they mean the same. -/
theorem ite {p p' : Prop} [Decidable p] [Decidable p'] (hp : p ↔ p') {x₁ : Read α}
    {y₁ : Read β} (h : T.Tells K c d V x y) (h₁ : T.Tells K c d V x₁ y₁) :
    T.Tells K c d V (if p then x else x₁) (if p' then y else y₁) := by
  by_cases hcond : p
  · rw [if_pos hcond, if_pos (hp.mp hcond)]
    exact h
  · rw [if_neg hcond, if_neg (mt hp.mpr hcond)]
    exact h₁

/-- Giving a result back takes no token and changes nothing, so the cursor
that is promised must have been reached before. -/
theorem pure {a : α} {b : β} (hd : d ≤ c) (h : V [] a b) :
    T.Tells K c d V (Pure.pure a) (Pure.pure b) := by
  refine ⟨fun s _ hc _ => .of_ok rfl .refl ?_ fun s' hs' _ => ?_⟩
  · exact ⟨b, hd.trans hc, [], .refl, h⟩
  · exact ⟨b, s', ⟨hd.trans hc, [], .refl, h⟩, rfl, hs'⟩

theorem map {k : α → γ} {k' : β → δ} (hx : T.Tells K c d (Quiet S) x y)
    (h : ∀ a b, S a b → U (k a) (k' b)) : T.Tells K c d (Quiet U) (k <$> x) (k' <$> y) :=
  hx.bind fun a b hab => .pure (by omega) ⟨rfl, h a b hab⟩

/-- Two readers that fail with related errors. Such a pair may promise any
cursor, since it never succeeds. -/
theorem throw {e e' : CompileError} (h : T.error e e') :
    T.Tells K c d V (MonadExcept.throw e : Read α) (MonadExcept.throw e' : Read β) :=
  ⟨fun _ _ _ _ => .of_error rfl .refl fun s' hs' _ => ⟨e', s', h, rfl, hs'⟩⟩

/-- Nothing is read behind the end of the first reading, so anything may be
said of a reader there. -/
theorem of_lt (h : T.length < c) : T.Tells K c d V x y := by
  refine ⟨fun s hs hc _ => absurd hs.length ?_⟩
  omega

/-- Behind the end of the second reading, nothing is asked of its reader: no
state is there that it could be run in. -/
theorem of_beyond {z : Read β} (h : T.length' < c) (hx : T.Tells K c d V x z) :
    T.Tells K c d V x y := by
  refine ⟨fun s hs hc hk => (hx.on s hs hc hk).congr rfl fun s' hs' => absurd hs'.length ?_⟩
  have htaken := hs'.taken
  omega

end Tells

namespace Loosely

theorem bind (hx : T.Loosely K c d S x y)
    (hf : ∀ a b, S a b → T.Loosely (fun _ => True) d e U (f a) (g b)) :
    T.Loosely K c e U (x >>= f) (y >>= g) := by
  refine ⟨fun s hs hc hk => (hx.on s hs hc hk).bind hs fun a b s₁ hab hs₁ => ?_⟩
  exact (hf a b hab.2).on s₁ hs₁ hab.1 trivial

theorem pure {a : α} {b : β} (hd : d ≤ c) (h : S a b) :
    T.Loosely K c d S (Pure.pure a) (Pure.pure b) :=
  Tells.loosely (Tells.pure (V := Quiet S) hd ⟨rfl, h⟩)

theorem ite {p p' : Prop} [Decidable p] [Decidable p'] (hp : p ↔ p') {x₁ : Read α}
    {y₁ : Read β} (h : T.Loosely K c d S x y) (h₁ : T.Loosely K c d S x₁ y₁) :
    T.Loosely K c d S (if p then x else x₁) (if p' then y else y₁) := by
  by_cases hcond : p
  · rw [if_pos hcond, if_pos (hp.mp hcond)]
    exact h
  · rw [if_neg hcond, if_neg (mt hp.mpr hcond)]
    exact h₁

/-- **What a reader changes may be said of the whole reader**, from what it
does if it succeeds. Two statements need this: what `load` and `lib` change
comes with their tokens, not after them. -/
theorem tells (h : T.Loosely K c d S x y) {E : α → List Event}
    (hchanges : ∀ s a s₁, K s.current.kind → x s = .ok a s₁ → s.Changes (E a) s₁) :
    T.Tells K c d (fun events a b => events = E a ∧ S a b) x y :=
  ⟨fun s hs hc hk => (h.on s hs hc hk).imp fun a _ s₁ ha _ hab =>
    ⟨hab.1, E a, hchanges s a s₁ hk ha, rfl, hab.2⟩⟩

end Loosely

/-! ## Looking at a token and taking it -/

variable {t t' : Token}

/-- Readers that go on with the token that is looked at. In what follows its
kind is known, and it is the same in both readings. -/
theorem Tells.look {f : Token → Read γ} {g : Token → Read δ}
    (h : ∀ t t', T.token t t' → K t.kind → T.Tells (· = t.kind) c d W (f t) (g t')) :
    T.Tells K c d W (Read.peek >>= f) (Read.peek >>= g) := by
  refine ⟨fun s hs hc hk => .of_partner hs (k := g) (fun t' ht => ?_) fun _ => rfl⟩
  exact ((h s.current t' ht hk).on s hs hc rfl).congr rfl fun _ _ => rfl

/-- Readers that ask for the kind of the token that is looked at. -/
theorem Tells.sees {kind : TokenKind} {f : Bool → Read γ} {g : Bool → Read δ}
    (h : ∀ t t', T.token t t' → K t.kind →
      T.Tells (· = t.kind) c d W (f (t.kind == kind)) (g (t.kind == kind))) :
    T.Tells K c d W (Read.sees kind >>= f) (Read.sees kind >>= g) := by
  refine ⟨fun s hs hc hk => .of_partner hs (k := fun t => g (t.kind == kind)) (fun t' ht => ?_)
    fun _ => rfl⟩
  rw [T.kind_eq ht]
  exact ((h s.current t' ht hk).on s hs hc rfl).congr rfl fun _ _ => rfl

/-- Readers that ask whether a call begins. The answer depends on two tokens,
and the second of them may stand where the second reading is not followed; its
kind is known there. -/
theorem Tells.seesCall {f : Bool → Read γ} {g : Bool → Read δ}
    (h : ∀ b, T.Tells K c d W (f b) (g b)) :
    T.Tells K c d W (Read.seesCall >>= f) (Read.seesCall >>= g) := by
  refine ⟨fun s hs hc hk => ?_⟩
  have hresult := (h s.startsCall).on s hs hc hk
  have hrun : (Read.seesCall >>= f) s = f s.startsCall s :=
    Read.bind_of_ok (Read.seesCall_apply s)
  have hrun' {s' : ReadState} (hs' : T.States s s') (hnear : T.near s.taken) :
      (Read.seesCall >>= g) s' = g s.startsCall s' := by
    rw [Read.bind_of_ok (Read.seesCall_apply s'), hs'.startsCall hnear]
  constructor
  · intro a s₁ ha
    obtain ⟨hleads, hsome, hboth⟩ := hresult.ok a s₁ (hrun ▸ ha)
    refine ⟨hleads, hsome, fun s' hs' hnear => ?_⟩
    rw [hrun' hs' (T.near_of_le hleads.taken_le hnear)]
    exact hboth s' hs' hnear
  · intro e s₁ he
    obtain ⟨hleads, hboth⟩ := hresult.error e s₁ (hrun ▸ he)
    refine ⟨hleads, fun s' hs' hnear => ?_⟩
    rw [hrun' hs' (T.near_of_le hleads.taken_le hnear)]
    exact hboth s' hs' hnear

/-- A token that is not the end mark is taken, and the cursor moves by one. -/
theorem loosely_advance (hK : ∀ kind, K kind → kind ≠ .eof) :
    T.Loosely K c (c + 1) (fun t t' => T.token t t' ∧ K t.kind) Read.advance Read.advance := by
  refine ⟨fun s hs hc hk => ?_⟩
  have htaken : c + 1 ≤ s.next.taken := by
    rw [ReadState.next_taken hs.proper.final (hK _ hk)]
    exact Nat.succ_le_succ hc
  refine .of_ok (Read.advance_apply s) s.leads_next ?_ fun s' hs' hnear => ?_
  · obtain ⟨t', ht'⟩ := hs.exists_current
    exact ⟨t', htaken, ht', hk⟩
  · have hnear := T.near_of_le s.leads_next.taken_le hnear
    exact ⟨s'.current, s'.next, ⟨htaken, hs'.current hnear, hk⟩, Read.advance_apply s',
      hs'.next hnear⟩

/-- **A word other than `load` is taken**, and nothing else changes. Taking
`load` is part of the event of its statement, so it is not said here. -/
theorem takes_advance (hK : ∀ kind, K kind → kind.isQuiet = true) :
    T.Tells K c (c + 1) (Quiet fun t t' => T.token t t' ∧ K t.kind) Read.advance
      Read.advance :=
  (loosely_advance fun kind hk => (TokenKind.ne_of_isQuiet (hK kind hk)).2).tells
      (E := fun _ => []) fun s t s₁ hk h => by
    obtain ⟨-, rfl⟩ := EStateM.Result.ok.inj ((Read.advance_apply s).symm.trans h)
    exact (ReadState.Change.take (TokenKind.ne_of_isQuiet (hK _ hk)).1).changes

/-- Readers that begin with taking a word, as every statement does with its
keyword. From there on the cursor is one further. -/
theorem Tells.first {kind : TokenKind} {f : Token → Read γ} {g : Token → Read δ}
    (hkind : kind.isQuiet = true) (h : ∀ t t', T.token t t' → t.kind = kind →
      T.Tells (fun _ => True) (c + 1) d W (f t) (g t')) :
    T.Tells (· = kind) c d W (Read.advance >>= f) (Read.advance >>= g) :=
  (takes_advance (K := (· = kind)) fun _ hk => hk ▸ hkind).bind fun t t' ht => h t t' ht.1 ht.2

/-! ## Failing -/

theorem tells_failAt {fault : Fault} (h : T.token t t') (hown : fault.isImport = false) :
    T.Tells K c d V (Read.failAt t fault) (Read.failAt t' fault) :=
  .throw (Pairing.error_const h hown)

/-- Both readings fail at counterparts, with a fault that mentions a text and
its counterpart. -/
theorem tells_failAt_text {x x' : String} (fault : String → Fault) (h : T.token t t')
    (hx : T.text x x') (hfault : Fault.IsWorded fun x _ => fault x) :
    T.Tells K c d V (Read.failAt t (fault x)) (Read.failAt t' (fault x')) :=
  .throw (Pairing.error_text fault h hx hfault)

/-- Both readings fail because something else should stand here. -/
theorem tells_unexpected (expected : String) :
    T.Tells K c d V (Read.unexpected expected) (Read.unexpected expected) :=
  .look fun _ _ ht _ => .throw (Pairing.error_unexpected ht expected)

/-- A token that cannot stand here is taken and then blamed. The cursor has
moved when the reader fails, so the second reading is followed up to the token
that is blamed. -/
theorem tells_take_failAt {f : Token → Read α} {g : Token → Read β} (fault : String → Fault)
    (hfault : Fault.IsWorded fun x _ => fault x)
    (hf : ∀ t, K t.kind → f t = Read.failAt t (fault t.lexeme))
    (hg : ∀ t, K t.kind → g t = Read.failAt t (fault t.lexeme)) :
    T.Tells K c d V (Read.advance >>= f) (Read.advance >>= g) := by
  have hrun {ε : Type} {k : Token → Read ε} (hblamed : ∀ t, K t.kind →
      k t = Read.failAt t (fault t.lexeme)) {s : ReadState} (hk : K s.current.kind) :
      (Read.advance >>= k) s = .error (.atToken (fault s.current.lexeme) s.current) s.next := by
    rw [Read.bind_of_ok (Read.advance_apply s), hblamed _ hk, Read.failAt_apply]
  refine ⟨fun s _ _ hk => .of_error (hrun hf hk) s.leads_next fun s' hs' hnear => ?_⟩
  have hnear := T.near_of_le s.leads_next.taken_le hnear
  have ht := hs'.current hnear
  exact ⟨_, s'.next, Pairing.error_text fault ht (T.text_lexeme ht) hfault,
    hrun hg (T.kind_eq ht ▸ hk), hs'.next hnear⟩

/-! ## Tokens that are expected -/

/-- A token of a kind is taken by both readings or by neither. As the token
may not be there, no progress is promised. -/
theorem reads_accept (kind : TokenKind) (hkind : kind.isQuiet = true) :
    T.Reads c c Eq (Read.accept kind) (Read.accept kind) := by
  refine .sees fun t _ _ _ => ?_
  by_cases heq : t.kind = kind
  · rw [if_pos (beq_iff_eq.mpr heq), heq]
    exact .first hkind fun _ _ _ _ => .pure (by omega) ⟨rfl, rfl⟩
  · rw [if_neg (mt beq_iff_eq.mp heq)]
    exact .pure (by omega) ⟨rfl, rfl⟩

/-- A token of some kinds is taken, and any other is a fault. What was known
of the kind that is looked at is still known of the token that was taken. -/
theorem tells_taken {p : TokenKind → Bool} (expected : String)
    (hp : ∀ kind, p kind = true → kind.isQuiet = true) :
    T.Tells K c (c + 1) (Quiet fun t t' => (T.token t t' ∧ p t.kind = true) ∧ K t.kind)
      (do if p (← Read.peek).kind then Read.advance else Read.unexpected expected)
      (do if p (← Read.peek).kind then Read.advance else Read.unexpected expected) := by
  refine .look fun t t' ht hK => ?_
  rw [T.kind_eq ht]
  split
  · next hkind =>
    refine (takes_advance (K := (· = t.kind)) fun _ hk => hk ▸ hp t.kind hkind).imp
      fun _ u u' hu => ?_
    obtain ⟨hevents, hu, huk⟩ := hu
    exact ⟨hevents, ⟨hu, huk ▸ hkind⟩, huk ▸ hK⟩
  · exact tells_unexpected expected

theorem tells_expect (kind : TokenKind) (expected : String)
    (hkind : kind.isQuiet = true) :
    T.Tells K c (c + 1) (Quiet fun t t' => (T.token t t' ∧ t.kind = kind) ∧ K t.kind)
      (Read.expect kind expected) (Read.expect kind expected) := by
  have htaken := tells_taken (T := T) (K := K) (c := c) (p := (· == kind)) expected fun _ hk =>
    beq_iff_eq.mp hk ▸ hkind
  refine htaken.imp fun _ t t' ht => ?_
  obtain ⟨hevents, ⟨ht, hk⟩, hK⟩ := ht
  exact ⟨hevents, ⟨ht, beq_iff_eq.mp hk⟩, hK⟩

theorem reads_expect (kind : TokenKind) (expected : String)
    (hkind : kind.isQuiet = true) :
    T.Reads c (c + 1) (fun t t' => T.token t t' ∧ t.kind = kind) (Read.expect kind expected)
      (Read.expect kind expected) :=
  (tells_expect kind expected hkind).imp fun _ _ _ ht => ⟨ht.1, ht.2.1⟩

theorem reads_identifier (expected : String) :
    T.Reads c (c + 1) T.Names (Read.identifier expected) (Read.identifier expected) :=
  reads_expect .identifier expected rfl

/-! ## What is known -/

/-- Readers that ask what is known. The second of them has to do the same in
all states that go with a state of the first, so that one reader can be named
that it is. -/
theorem Tells.ask {f : ReadState → Read γ} {g : ReadState → Read δ}
    (h : ∀ s, ∃ z, (∀ s', T.States s s' → g s' = z) ∧ T.Tells K c d W (f s) z) :
    T.Tells K c d W (get >>= f) (get >>= g) := by
  refine ⟨fun s hs hc hk => ?_⟩
  obtain ⟨z, hz, hf⟩ := h s
  refine (hf.on s hs hc hk).congr (Read.bind_of_ok (Read.get_apply s)) fun s' hs' => ?_
  rw [Read.bind_of_ok (Read.get_apply s'), hz s' hs']

theorem Loosely.ask {f : ReadState → Read γ} {g : ReadState → Read δ}
    (h : ∀ s, ∃ z, (∀ s', T.States s s' → g s' = z) ∧ T.Loosely K c d U (f s) z) :
    T.Loosely K c d U (get >>= f) (get >>= g) := by
  refine ⟨fun s hs hc hk => ?_⟩
  obtain ⟨z, hz, hf⟩ := h s
  refine (hf.on s hs hc hk).congr (Read.bind_of_ok (Read.get_apply s)) fun s' hs' => ?_
  rw [Read.bind_of_ok (Read.get_apply s'), hz s' hs']

/-- What is known changes in both readings alike, and the tokens stay. Nothing
is said of events: this is for parts of statements whose events are told as a
whole. -/
theorem loosely_modify {k k' : ReadState → ReadState}
    (hk : ∀ s, (k s).pending = s.pending ∧ (k s).final = s.final ∧ (k s).taken = s.taken)
    (h : ∀ s s', T.States s s' → T.States (k s) (k' s')) :
    T.Loosely K c c (fun _ _ => True) (modify k : Read PUnit) (modify k' : Read PUnit) := by
  refine ⟨fun s _ hc _ => ?_⟩
  obtain ⟨hpending, hfinal, htaken⟩ := hk s
  have hc : c ≤ (k s).taken := htaken ▸ hc
  exact .of_ok (Read.modify_apply k s) (ReadState.leads_know hpending hfinal htaken)
    ⟨⟨⟩, hc, trivial⟩ fun s' hs' _ =>
      ⟨⟨⟩, k' s', ⟨hc, trivial⟩, Read.modify_apply k' s', h s s' hs'⟩

/-- **A rule is asked in both readings.** It decides alike in a scope and in
the same scope with other names, which is what `Pairing.Rules` says of each
rule. -/
theorem reads_rule {check : Scope → Except CompileError α}
    {check' : Scope → Except CompileError β}
    (h : ∀ s, T.Rules S (check s) (check' (s.rename T.rename))) :
    T.Reads c c S (Read.rule check) (Read.rule check') := by
  refine ⟨fun s _ hc _ => ?_⟩
  have hrules := h s.scope
  generalize hr : check s.scope = r, hr' : check' (s.scope.rename T.rename) = r' at hrules
  cases hrules with
  | @ok a b hab =>
    refine .of_ok (by rw [Read.rule_apply, hr]) .refl ⟨b, hc, [], .refl, rfl, hab⟩
      fun s' hs' _ => ⟨b, s', ⟨hc, [], .refl, rfl, hab⟩, ?_, hs'⟩
    rw [Read.rule_apply, hs'.scope, hr']
  | @error e e' he =>
    refine .of_error (by rw [Read.rule_apply, hr]) .refl fun s' hs' _ => ⟨e', s', he, ?_, hs'⟩
    rw [Read.rule_apply, hs'.scope, hr']

/-- What is known about names changes in both readings alike, and is told as
one change with its events. -/
theorem tells_modifyScope {k k' : Scope → Scope} {events : List Event}
    (hchange : ∀ s : ReadState, s.Change events { s with scope := k s.scope })
    (h : ∀ s : Scope, k' (s.rename T.rename) = (k s).rename T.rename) :
    T.Tells K c c (fun more _ _ => more = events) (Read.modifyScope k) (Read.modifyScope k') := by
  refine ⟨fun s _ hc _ => .of_ok (Read.modifyScope_apply k s) (ReadState.leads_know rfl rfl rfl)
    ⟨⟨⟩, hc, events, (hchange s).changes, rfl⟩ fun s' hs' _ => ?_⟩
  refine ⟨⟨⟩, _, ⟨hc, events, (hchange s).changes, rfl⟩, Read.modifyScope_apply k' s', ?_⟩
  exact hs'.mapScope (by rw [hs'.scope, h])

theorem reads_openBlock :
    T.Reads c c Eq (Read.modifyScope Scope.openBlock) (Read.modifyScope Scope.openBlock) :=
  (tells_modifyScope (fun s => .bindings s _) fun s => s.openBlock_rename T.rename).imp
    fun _ _ _ h => ⟨h, rfl⟩

theorem reads_closeBlock :
    T.Tells K c c (Quiet Eq) (Read.modifyScope Scope.closeBlock)
      (Read.modifyScope Scope.closeBlock) :=
  (tells_modifyScope (fun s => .bindings s _) fun s => s.closeBlock_rename T.rename).imp
    fun _ _ _ h => ⟨h, rfl⟩

/-- A block is closed before the word that closes it is taken. The word is
known, since the body ended at it. -/
theorem Tells.closeBlock {kind : TokenKind} {f : Token → Read γ} {g : Token → Read δ}
    (hkind : kind.isQuiet = true)
    (h : ∀ t t', T.token t t' → T.Tells (fun _ => True) (c + 1) d W (f t) (g t')) :
    T.Tells (· = kind) c d W
      (Read.modifyScope Scope.closeBlock >>= fun _ => Read.advance >>= f)
      (Read.modifyScope Scope.closeBlock >>= fun _ => Read.advance >>= g) := by
  refine reads_closeBlock.bindEnd (L := (· = kind)) (fun s a s₁ _ _ hk hs₁ => ?_)
    fun events _ _ hevents => ?_
  · obtain ⟨-, rfl⟩ := EStateM.Result.ok.inj hs₁
    exact hk
  · rw [hevents.1]
    exact .first hkind fun t t' ht _ => h t t' ht

/-- A name is given a meaning in both readings, or in neither. The operation
is one that does the same in a scope with other names. -/
theorem reads_introduce {ε ε' : Type} {op : EStateM ε Scope Unit} {op' : EStateM ε' Scope Unit}
    (h : T.Names t t') (hop : Scope.Renames T.rename op op')
    (hchange : ∀ (s : ReadState) u scope, op s.scope = .ok u scope →
      s.Change [] { s with scope := scope }) :
    T.Reads c c Eq (Read.introduce t op) (Read.introduce t' op') := by
  refine ⟨fun s _ hc _ => ?_⟩
  cases hrun : op s.scope with
  | ok u scope =>
    have hchanges := (hchange s u scope hrun).changes
    refine .of_ok (Read.introduce_of_ok t hrun) (ReadState.leads_know rfl rfl rfl)
      ⟨⟨⟩, hc, [], hchanges, rfl, rfl⟩ fun s' hs' _ => ?_
    have hrun' := hop.ok s.scope u scope hrun
    rw [← hs'.scope] at hrun'
    exact ⟨⟨⟩, _, ⟨hc, [], hchanges, rfl, rfl⟩, Read.introduce_of_ok t' hrun', hs'.mapScope rfl⟩
  | error e scope =>
    refine .of_error (Read.introduce_of_error t hrun) (ReadState.leads_know rfl rfl rfl)
      fun s' hs' _ => ?_
    obtain ⟨e', hrun'⟩ := hop.error s.scope e scope hrun
    rw [← hs'.scope] at hrun'
    exact ⟨_, _, Pairing.error_text .redeclared h.1 (T.text_lexeme h.1) fun _ _ => rfl,
      Read.introduce_of_error t' hrun', hs'.mapScope rfl⟩

theorem reads_declare (h : T.Names t t') (type : ValueType) (role : Role) :
    T.Reads c c Eq (Read.introduce t (Scope.declare ⟨t.lexeme, type, role⟩))
      (Read.introduce t' (Scope.declare ⟨t'.lexeme, type, role⟩)) := by
  rw [h.lexeme_eq]
  refine reads_introduce h (Scope.renames_declare T.rename_injective ⟨_, _, _⟩) ?_
  intro s u scope hop
  obtain ⟨-, rfl⟩ := s.scope.declare_eq_ok.mp hop
  exact .declare s _

/-- A name is bound in the innermost block in both readings, or in neither. -/
theorem reads_bindName (h : T.Names t t') (type : ValueType) :
    T.Reads c c Eq (Read.introduce t (Scope.bindName t.lexeme type))
      (Read.introduce t' (Scope.bindName t'.lexeme type)) := by
  rw [h.lexeme_eq]
  refine reads_introduce h (Scope.renames_bindName T.rename_injective _ _) ?_
  intro s u scope hop
  obtain ⟨-, block, blocks, -, rfl⟩ := s.scope.bindName_eq_ok.mp hop
  exact .bindings s _

/-! ## Loops -/

variable (T) in
/-- **Budgets that are enough** from a cursor on: no more tokens are left than
they allow. -/
def Enough (c n n' : Nat) : Prop := T.length < n + c ∧ T.length' < n' + c

/-- Readers with a budget from the tokens that are left, which is enough. In
the two readings it need not be the same: the lists may differ in length. -/
theorem Tells.budget {f : Nat → Read γ} {g : Nat → Read δ} (hd : d ≤ c)
    (h : ∀ c₁ n n', c ≤ c₁ → T.Enough c₁ n n' → T.Tells K c₁ c₁ W (f n) (g n')) :
    T.Tells K c d W (get >>= fun s => f (s.pending.length + 1))
      (get >>= fun s => g (s.pending.length + 1)) := by
  refine ⟨fun s hs hc hk => ?_⟩
  have hlength := hs.length
  have henough : T.Enough s.taken (s.pending.length + 1) (T.length' - s.taken + 1) :=
    ⟨by omega, by omega⟩
  have htells := (h _ _ _ hc henough).mono (le_refl _) (.inr (hd.trans hc))
  have hresult := htells.on s hs (le_refl _) hk
  refine hresult.congr (Read.bind_of_ok (Read.get_apply s)) fun s' hs' => ?_
  have hlength' := hs'.length
  have htaken := hs'.taken
  rw [Read.bind_of_ok (Read.get_apply s'),
    show s'.pending.length = T.length' - s.taken by omega]

section Rounds

variable {σ τ : Type} {P : Nat → σ → τ → Prop} {F : σ → σ} {F' : τ → τ} {u : σ} {v : τ}

/-- Rounds that take a token each, and then what is fine wherever it is read.
By induction on the rounds. This is for readings with the same number of
rounds, enough or not. -/
theorem iterate_of_last (hround : ∀ c u v, P (c + 1) u v → P c (F u) (F' v))
    (h : ∀ c, P c u v) (n c : Nat) : P c (F^[n] u) (F'^[n] v) := by
  induction n generalizing c with
  | zero => exact h c
  | succ n ih =>
    rw [Function.iterate_succ_apply', Function.iterate_succ_apply']
    exact hround c _ _ (ih (c + 1))

/-- **Enough rounds are never used up**: they take a token each, so what comes
after the last of them stands behind the end of the text, where nothing is
read. By induction on the rounds of the first reading; the second one may have
fewer, if it ends before. -/
theorem iterate_of_enough (hround : ∀ c u v, P (c + 1) u v → P c (F u) (F' v))
    (hlt : ∀ c u v, T.length < c → P c u v)
    (hbeyond : ∀ c u v w, T.length' < c → P c u w → P c u v) {n n' : Nat}
    (henough : T.Enough c n n') (u : σ) (v : τ) : P c (F^[n] u) (F'^[n'] v) := by
  induction n generalizing c n' with
  | zero => exact hlt c _ _ (by simpa using henough.1)
  | succ n ih =>
    obtain ⟨hleft, hright⟩ := henough
    cases n' with
    | zero =>
      rw [Function.iterate_succ_apply']
      have henough : T.Enough (c + 1) n 0 := ⟨by omega, by omega⟩
      exact hbeyond c _ _ (F' v) (by omega) (hround c _ _ (ih henough))
    | succ n' =>
      rw [Function.iterate_succ_apply', Function.iterate_succ_apply']
      exact hround c _ _ (ih ⟨by omega, by omega⟩)

end Rounds

end Tandem

end MapleCompiler
