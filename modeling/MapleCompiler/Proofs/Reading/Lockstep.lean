import MapleCompiler.Proofs.Reading.Walk
import MapleCompiler.Proofs.Token.Layout

/-!
# Two readings in lockstep

Two lists of tokens that are counterparts of each other all the way (`Pairing`) hold the
same program, up to names and places, or are both refused with related errors. The readings
stay together to the end, so nothing is far.

Main statement: `Program.paired_ofTokens`. That the layout of a text, its dialect or the
names in it do not matter are three cases of it, with a pairing for each.
-/

namespace MapleCompiler

namespace Tandem

variable {T : Tandem} {i : Nat} {pending pending' : List Token} {final final' : Token}

/-- Tokens that are counterparts one by one, to the end, are alike from any
cursor on. By induction on the pairs. -/
theorem alike_of_forall₂ (h : List.Forall₂ T.token pending pending')
    (hfinal : T.token final final') : T.Alike i pending final pending' final' := by
  induction h generalizing i with
  | nil => exact .nil hfinal
  | cons ht _ ih => exact .cons ht ih

/-- Every token of the first of two such lists has a counterpart, the end mark
included. -/
theorem exists_partner_of_forall₂ (h : List.Forall₂ T.token pending pending')
    (hfinal : T.token final final') {t : Token} (ht : t ∈ pending ++ [final]) :
    ∃ t', T.token t t' := by
  induction h with
  | nil =>
    rw [List.nil_append, List.mem_singleton] at ht
    exact ⟨final', ht ▸ hfinal⟩
  | @cons u u' _ _ hu _ ih =>
    obtain rfl | ht := List.mem_cons.mp ht
    · exact ⟨u', hu⟩
    · exact ih ht

end Tandem

namespace Pairing

variable {P : Pairing}

variable (P) in
/-- Two readings of lists of one length that are followed to the end. -/
def whole (length : Nat) : Tandem :=
  { P with near := fun _ => True, length := length, length' := length, near_of_le := fun _ h => h }

/-- What stands before the end mark is paired too: counterparts are of the
same kind, so the two lists have their end marks at the same index. -/
theorem forall₂_takeWhile {tokens tokens' : List Token} (h : List.Forall₂ P.token tokens tokens') :
    List.Forall₂ P.token (tokens.takeWhile (·.kind != .eof))
      (tokens'.takeWhile (·.kind != .eof)) := by
  induction h with
  | nil => exact .nil
  | cons ht _ ih =>
    rw [List.takeWhile_cons, List.takeWhile_cons, P.kind_eq ht]
    split
    · exact .cons ht ih
    · exact .nil

/-- The end marks of two lists are counterparts, if the lists hold one.
Otherwise an end mark is put behind each of them, and whether these are
counterparts has to be known. -/
theorem token_endMark {tokens tokens' : List Token} (h : List.Forall₂ P.token tokens tokens')
    (heof : ∃ t ∈ tokens, t.kind = .eof) :
    P.token (ReadState.endMark tokens) (ReadState.endMark tokens') := by
  have hfind : ∃ t t', tokens.find? (·.kind == .eof) = some t ∧
      tokens'.find? (·.kind == .eof) = some t' ∧ P.token t t' := by
    induction h with
    | nil => simp at heof
    | @cons t t' _ _ ht _ ih =>
      rw [List.find?_cons, List.find?_cons, P.kind_eq ht]
      by_cases hkind : t.kind = .eof
      · rw [hkind]
        exact ⟨t, t', rfl, rfl, ht⟩
      · rw [beq_false_of_ne hkind]
        exact ih (by simpa [hkind] using heof)
  obtain ⟨t, t', ht, ht', htoken⟩ := hfind
  simpa only [ReadState.endMark, ht, ht'] using htoken

/-- The two readings begin together, with nothing known and the cursor at the
first token. -/
theorem states_ofTokens {tokens tokens' : List Token} (h : List.Forall₂ P.token tokens tokens')
    (hfinal : P.token (ReadState.endMark tokens) (ReadState.endMark tokens')) :
    (P.whole (Token.words tokens).length).States (.ofTokens tokens) (.ofTokens tokens') := by
  have hwords : List.Forall₂ P.token (Token.words tokens) (Token.words tokens') :=
    forall₂_takeWhile h
  refine ⟨⟨ReadState.proper_ofTokens _, ReadState.length_ofTokens _, fun t ht => ?_⟩,
    ReadState.proper_ofTokens _, (ReadState.length_ofTokens _).trans hwords.length_eq.symm, ?_, rfl,
    (Scope.rename_empty _).symm, rfl, .nil⟩
  · exact Tandem.exists_partner_of_forall₂ (T := P.whole _) hwords hfinal ht
  · exact Tandem.alike_of_forall₂ (T := P.whole _) hwords hfinal

variable (P) in
/-- **What the two readings give**: the same program up to names and places,
and warnings that are related one by one. -/
def Units (u u' : Program × List Warning) : Prop :=
  u'.1.placed P.place = (u.1.rename P.rename).placed P.place ∧ List.Forall₂ P.warning u.2 u'.2

end Pairing

namespace Program

/-- **Two lists of tokens that are counterparts hold the same program**, up to
names and places; or both are refused, with related errors. It is the walk
through a whole unit (`Tandem.tells_unit`) from two states that go together,
in two readings that are never far. -/
theorem paired_ofTokens (P : Pairing) (library : Bool) {tokens tokens' : List Token}
    (h : List.Forall₂ P.token tokens tokens')
    (hfinal : P.token (ReadState.endMark tokens) (ReadState.endMark tokens')) :
    P.Rules P.Units (ofTokens P.dialect library tokens) (ofTokens P.dialect' library tokens') := by
  have hstates := Pairing.states_ofTokens h hfinal
  have hlength : (ReadState.ofTokens tokens').pending.length =
      (ReadState.ofTokens tokens).pending.length := (Pairing.forall₂_takeWhile h).length_eq.symm
  have hresult := (Tandem.tells_unit (T := P.whole (Token.words tokens).length) library).on _
    hstates.first (Nat.zero_le _) trivial
  unfold ofTokens
  dsimp only
  rw [hlength]
  cases hread : Read.statements ((ReadState.ofTokens tokens).pending.length + 1)
      ⟨P.dialect, 0, none⟩ (.unit library) (ReadState.ofTokens tokens) with
  | ok nodes s =>
    obtain ⟨-, -, hboth⟩ := hresult.ok nodes s hread
    obtain ⟨nodes', s', ⟨-, _, -, -, hnodes⟩, hread', hs'⟩ := hboth _ hstates trivial
    have hread' : Read.statements ((ReadState.ofTokens tokens).pending.length + 1)
        ⟨P.dialect', 0, none⟩ (.unit library) (ReadState.ofTokens tokens') = .ok nodes' s' := hread'
    rw [hread']
    exact .ok ⟨congrArg Program.mk hnodes, hs'.warnings⟩
  | error e s =>
    obtain ⟨-, hboth⟩ := hresult.error e s hread
    obtain ⟨e', s', he, hread', -⟩ := hboth _ hstates trivial
    have hread' : Read.statements ((ReadState.ofTokens tokens).pending.length + 1)
        ⟨P.dialect', 0, none⟩ (.unit library) (ReadState.ofTokens tokens') = .error e' s' := hread'
    rw [hread']
    exact .error he

/-- Two texts whose tokens are counterparts hold the same program, or both
hold none. The tokens of a text end in an end mark, so nothing has to be known
of the marks. -/
theorem paired_ofText (P : Pairing) (library : Bool) {source source' : String}
    {tokens tokens' : List Token} (hscan : Token.scan P.dialect source = .ok tokens)
    (hscan' : Token.scan P.dialect' source' = .ok tokens')
    (h : List.Forall₂ P.token tokens tokens') :
    P.Rules P.Units (ofText P.dialect library source) (ofText P.dialect' library source') := by
  have heof := Token.scan_cases P.dialect source
  rw [hscan] at heof
  unfold ofText
  rw [hscan, hscan']
  exact paired_ofTokens P library h (Pairing.token_endMark h heof)

end Program

end MapleCompiler
