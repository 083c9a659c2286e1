import MapleCompiler.Proofs.Reading.Alone
import MapleCompiler.Proofs.Token.Layout

/-!
# Faults of a text, and where they are

Reading a text can fail in many ways, but always *at* something: at a character
that begins no token, or at one of its tokens. And it never fails with a fault
of an import: whether a library exists, can be read or imports itself is not
asked before the text has been read (`Program.ofText_isOwn`), so such a fault was
found by the walk through the libraries. What the walk then points at is the
place that an import keeps, and that is the place of the name after a `lib`
(`Program.askedIn_of_ofText`).

Both come from the statements about readers. A reading that fails does so at a
token that it had before it. A reading that succeeds tells which libraries it
imported, each with the tokens that were taken with it; as long as the tokens
that are left stand together in the text (`ReadState.Within`), so do these two.
-/

namespace MapleCompiler

namespace CompileError

/-- The error is a fault of a text. -/
def IsOwn (e : CompileError) : Prop := e.fault.isImport = false

/-- **The error is a fault of a text, at one of its tokens.** -/
def IsAt (tokens : List Token) (e : CompileError) : Prop :=
  ∃ t ∈ tokens, ∃ fault : Fault, fault.isImport = false ∧ e = .atToken fault t

theorem IsAt.isOwn {e : CompileError} {tokens : List Token} (h : e.IsAt tokens) : e.IsOwn := by
  obtain ⟨t, -, fault, hown, rfl⟩ := h
  exact hown

end CompileError

/-- The tokens of a text may be blamed. -/
def Blame.onTokens (tokens : List Token) : Blame :=
  ⟨(· ∈ tokens), (·.IsAt tokens), fun ht hown => ⟨_, ht, _, hown, rfl⟩⟩

/-- **An import comes from its statement**: the word `lib`, and after it the
name, whose place the import keeps. -/
def Event.AskedIn (tokens : List Token) : Event → Prop
  | .useLibrary name span => ∃ keyword t, [keyword, t] <:+: tokens ∧ keyword.kind = .lib ∧
      t.kind = .libraryName ∧ name = dropAtSigns t.lexeme ∧ span = t.span
  | _ => True

/-- A node that is an import comes from its statement. -/
def Node.AskedIn (tokens : List Token) (node : Node) : Prop :=
  ∀ event ∈ node.event?, event.AskedIn tokens

/-! ## States within a text -/

namespace ReadState

variable {tokens : List Token} {s s' : ReadState} {events : List Event}

/-- **The state is within a text**: the tokens that are left and the end mark
stand together among its tokens. -/
def Within (tokens : List Token) (s : ReadState) : Prop := s.pending ++ [s.final] <:+: tokens

/-- A state stays within a text wherever moves lead: tokens are only taken
from the front. -/
theorem Within.of_leads (h : s.Within tokens) (hleads : s.Leads s') : s'.Within tokens := by
  induction hleads with
  | refl => exact h
  | @tail s₁ s₂ _ hmove ih =>
    unfold Within at ih ⊢
    cases hmove with
    | take =>
      rw [next_final, next_pending]
      cases hpending : s₁.pending with
      | nil => rwa [hpending] at ih
      | cons t rest =>
        rw [hpending] at ih
        exact (List.suffix_cons t (rest ++ [s₁.final])).isInfix.trans ih
    | know hpending hfinal _ => rwa [hpending, hfinal]

/-- What is looked at after a token stands right after it. -/
theorem Within.pair (h : s.Within tokens) (hne : s.pending ≠ []) :
    [s.current, s.next.current] <:+: tokens := by
  unfold Within at h
  unfold current
  rw [next_final, next_pending]
  obtain ⟨t, rest, hpending⟩ := List.exists_cons_of_ne_nil hne
  rw [hpending] at h ⊢
  refine List.IsInfix.trans (List.IsPrefix.isInfix ?_) h
  cases rest with
  | nil => exact List.prefix_rfl
  | cons t' rest => exact ⟨rest ++ [s.final], rfl⟩

/-- The state before a text is read is within the text, if that has an end
mark. What stands behind the mark is left out. -/
theorem within_ofTokens (h : ∃ t ∈ tokens, t.kind = .eof) : (ofTokens tokens).Within tokens := by
  obtain ⟨t, ht, hkind⟩ := h
  cases hfind : tokens.find? (·.kind == .eof) with
  | none => exact absurd (beq_iff_eq.mpr hkind) (List.find?_eq_none.mp hfind t ht)
  | some mark =>
    obtain ⟨hmark, before, after, rfl, hbefore⟩ := List.find?_eq_some_iff_append.mp hfind
    have hbefore : ∀ t ∈ before, t.kind ≠ .eof := fun t ht => by simpa using hbefore t ht
    have hmark : mark.kind = .eof := by simpa using hmark
    have hpending : (ofTokens (before ++ mark :: after)).pending = before :=
      Token.words_append hbefore hmark after
    have hfinal : (ofTokens (before ++ mark :: after)).final = mark :=
      Token.endMark_append hbefore hmark after
    unfold Within
    rw [hpending, hfinal]
    exact ⟨[], after, by simp⟩

/-- **What a change imports was asked for** in the text: the word `lib` and
the name are taken by the change, so they stand together. Other changes have
no such event. -/
theorem Change.askedIn (h : s.Change events s') (hs : s.Proper) (hin : s.Within tokens) :
    ∀ event ∈ events, event.AskedIn tokens := by
  cases h with
  | @useLibrary hword hname =>
    have hne : s.pending ≠ [] := by
      rw [Ne, hs.pending_eq_nil_iff, hword]
      decide
    refine List.forall_mem_singleton.mpr ⟨s.current, s.next.current, hin.pair hne, ?_⟩
    exact ⟨hword, hname, rfl, rfl⟩
  | take => exact List.forall_mem_nil _
  | declare => exact List.forall_mem_nil _
  | bindings => exact List.forall_mem_nil _
  | save => exact List.forall_mem_singleton.mpr trivial
  | restore => exact List.forall_mem_singleton.mpr trivial

/-- **So was all that some changes import.** By induction on the changes; each
of them begins in a state within the text. -/
theorem Changes.askedIn (h : s.Changes events s') (hs : s.Proper) (hin : s.Within tokens) :
    ∀ event ∈ events, event.AskedIn tokens := by
  induction h with
  | refl => exact List.forall_mem_nil _
  | @tail events more s₁ s₂ hchanges hchange ih =>
    have hleads := hchanges.grows.leads
    exact List.forall_mem_append.mpr
      ⟨ih, hchange.askedIn (hleads.proper hs) (hin.of_leads hleads)⟩

end ReadState

/-! ## Texts -/

namespace Program

variable {d : Dialect} {library : Bool} {source : String}

/-- **Reading tokens** fails at one of them, and imports come from statements
among them. Both are read off the walk through a unit, with the tokens of the
text as those that may be blamed. -/
theorem ofTokens_cases (d : Dialect) (library : Bool) {tokens : List Token}
    (h : ∃ t ∈ tokens, t.kind = .eof) :
    match ofTokens d library tokens with
    | .ok unit => ∀ node ∈ unit.1.nodes, node.AskedIn tokens
    | .error e => e.IsAt tokens := by
  have hproper := ReadState.proper_ofTokens tokens
  have hin := ReadState.within_ofTokens h
  have hblame : ∀ t ∈ (ReadState.ofTokens tokens).pending ++ [(ReadState.ofTokens tokens).final],
      (Blame.onTokens tokens).token t := fun t ht => hin.subset ht
  have htells := (Tandem.bodies_statements (T := .itself d (.onTokens tokens) (.ofTokens tokens))
    (c := 0) ((ReadState.ofTokens tokens).pending.length + 1)).reads ⟨d, 0, none⟩ _ _ rfl
    (.unit library)
  unfold ofTokens
  dsimp only
  cases hread : Read.statements ((ReadState.ofTokens tokens).pending.length + 1) ⟨d, 0, none⟩
      (.unit library) (ReadState.ofTokens tokens) with
  | ok nodes final =>
    obtain ⟨-, events, _, hchanges, rfl, -⟩ :=
      htells.changes (Tandem.states_itself hproper hblame).first (Nat.zero_le _) trivial hread
    intro node hnode event hevent
    refine hchanges.askedIn hproper hin event ?_
    exact List.mem_filterMap.mpr ⟨node, Node.mem_preorder hnode, hevent⟩
  | error e final => exact htells.blames hproper (Nat.zero_le _) trivial hblame hread

/-- **Where reading a text fails**: at one of its tokens, or at a character
that begins none. In the second case there are no tokens, and the error is the
one of cutting the text. -/
theorem isAt_of_ofText {e : CompileError} (h : ofText d library source = .error e) :
    (∃ tokens, Token.scan d source = .ok tokens ∧ e.IsAt tokens) ∨
      Token.scan d source = .error e ∧ ∃ c span, e = .atSpan (.illegalCharacter c) span := by
  have hscan := Token.scan_cases d source
  unfold ofText at h
  cases hs : Token.scan d source with
  | error e' =>
    rw [hs] at h hscan
    obtain rfl : e' = e := Except.error.inj h
    exact .inr ⟨rfl, hscan⟩
  | ok tokens =>
    rw [hs] at h hscan
    change ofTokens d library tokens = .error e at h
    have hcases := ofTokens_cases d library hscan
    rw [h] at hcases
    exact .inl ⟨tokens, rfl, hcases⟩

/-- **Reading a text fails only with faults of the text.** Whether a library
exists or can be read is never found out here. -/
theorem ofText_isOwn (d : Dialect) (library : Bool) (source : String) (e : CompileError)
    (h : ofText d library source = .error e) : e.IsOwn := by
  obtain ⟨tokens, -, hat⟩ | ⟨-, c, span, rfl⟩ := isAt_of_ofText h
  · exact hat.isOwn
  · rfl

/-- **Every import of a text comes from its statement**: it has the name that
stands after a word `lib`, without the mark before it, and keeps the place of
that name. -/
theorem askedIn_of_ofText {unit : Program × List Warning} (h : ofText d library source = .ok unit) :
    ∃ tokens, Token.scan d source = .ok tokens ∧ ∀ node ∈ unit.1.nodes, node.AskedIn tokens := by
  have hscan := Token.scan_cases d source
  unfold ofText at h
  cases hs : Token.scan d source with
  | error e =>
    rw [hs] at h
    cases h
  | ok tokens =>
    rw [hs] at h hscan
    change ofTokens d library tokens = .ok unit at h
    have hcases := ofTokens_cases d library hscan
    rw [h] at hcases
    exact ⟨tokens, rfl, hcases⟩

end Program

end MapleCompiler
