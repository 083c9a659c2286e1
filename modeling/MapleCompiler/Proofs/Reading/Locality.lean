import MapleCompiler.Proofs.Parser.Following
import MapleCompiler.Proofs.Reading.Faults

/-!
# What a parse depends on

What stands behind the first end mark is never read. And a parse that fails was decided by
what it had seen: it fails in the same way on all tokens that are the same up to there
(`Program.ofTokens_local`).

What it had seen is one token more than what it had come to. Whether a call begins is
decided by the kind of the token behind the cursor, so the lists have to be the same up to
the place where the cursor stood, and of the same kind one index behind it
(`Program.FailsAt.of_kinds`). The error itself points at no token behind the cursor: checks
may come late, after further tokens were taken, but never early. For if it did point at
such a token, it would still do so after the tokens there were replaced by others of the
same kinds at other places (`Token.movedAway`).
-/

namespace MapleCompiler

namespace Token

/-- **Streams that are the same up to an index**, as far as the first of them
goes. -/
def AgreeUpTo (k : Nat) (tokens tokens' : List Token) : Prop :=
  ∀ i ≤ k, ∀ t, (terminated tokens)[i]? = some t → (terminated tokens')[i]? = some t

variable {k : Nat} {tokens tokens' : List Token}

/-- A token of the stream up to the first end mark is one of the tokens that
are read. -/
theorem getElem?_upToEnd {i : Nat} (hi : i ≤ (words tokens).length) {t : Token}
    (ht : (terminated tokens)[i]? = some t) : (upToEnd tokens)[i]? = some t := by
  obtain ⟨t', ht'⟩ := exists_getElem?_upToEnd hi
  rw [ht', ← getElem?_terminated ht', ht]

theorem le_length_words {n : Nat}
    (h : ∀ i < n, ∀ t, (terminated tokens)[i]? = some t → t.kind ≠ .eof) :
    n ≤ (words tokens).length := by
  by_contra hlt
  rw [not_le] at hlt
  obtain ⟨mark, hmark⟩ := exists_getElem?_upToEnd (Nat.le_refl (words tokens).length)
  exact h _ hlt mark (getElem?_terminated hmark) ((kind_eq_eof_iff hmark).mpr rfl)

/-- The end mark of the second stream does not come before that of the first,
up to the index: there the two have the same tokens. -/
theorem AgreeUpTo.le_length (h : AgreeUpTo k tokens tokens') {n : Nat}
    (hn : n ≤ (words tokens).length) (hk : n ≤ k + 1) : n ≤ (words tokens').length := by
  refine le_length_words fun i hi t ht => ?_
  obtain ⟨t', ht'⟩ := exists_getElem?_upToEnd (hi.le.trans hn)
  have hsame := h i (by omega) t' (getElem?_terminated ht')
  obtain rfl := Option.some.inj (ht.symm.trans hsame)
  exact fun heof => (hi.trans_le hn).ne ((kind_eq_eof_iff ht').mp heof)

/-- The first end marks stand at the same index, if it is not behind the given
one. -/
theorem AgreeUpTo.upToEnd (h : AgreeUpTo k tokens tokens') {i : Nat} (hi : i ≤ k) {t : Token}
    (ht : (upToEnd tokens)[i]? = some t) : (upToEnd tokens')[i]? = some t := by
  have hle : i ≤ (words tokens).length := by
    obtain ⟨hlt, -⟩ := List.getElem?_eq_some_iff.mp ht
    rw [length_upToEnd] at hlt
    exact Nat.le_of_lt_succ hlt
  exact getElem?_upToEnd (h.le_length hle (Nat.le_succ_of_le hi))
    (h i hi t (getElem?_terminated ht))

/-- A list agrees with all that go on after it, as far as it goes. -/
theorem agreeUpTo_append (h : k < tokens.length) (rest : List Token) :
    AgreeUpTo k tokens (tokens ++ rest) := by
  intro i hi t ht
  have hlt : i < tokens.length := hi.trans_lt h
  have hget {more : List Token} (hmore : tokens <+: more) : more[i]? = tokens[i]? := by
    obtain ⟨rest, rfl⟩ := hmore
    exact List.getElem?_append_left hlt
  rw [hget (isPrefix_terminated tokens)] at ht
  rw [hget ((List.prefix_append tokens rest).trans (isPrefix_terminated _)), ht]

/-- The tokens of a stream up to an index, and behind them a token of some
kind at another place. It is a stream that a failure cannot tell from the
first one, but whose later tokens are elsewhere. -/
def movedAway (k : Nat) (kind : TokenKind) (place : Position) (tokens : List Token) :
    List Token :=
  (upToEnd tokens).take (k + 1) ++ [⟨kind, "", place⟩, .eof place]

theorem terminated_movedAway (kind : TokenKind) (place : Position) :
    terminated (movedAway k kind place tokens) = movedAway k kind place tokens := by
  have hlast : (movedAway k kind place tokens).getLast? = some (.eof place) := by
    simp [movedAway]
  rw [terminated, hlast]
  exact if_pos rfl

section

variable (hk : k < (words tokens).length) (kind : TokenKind) (place : Position)

include hk

theorem length_take_upToEnd : ((upToEnd tokens).take (k + 1)).length = k + 1 := by
  rw [List.length_take, length_upToEnd]
  omega

/-- What was moved away stands behind the index, so the streams agree up to
it. -/
theorem agreeUpTo_movedAway : AgreeUpTo k tokens (movedAway k kind place tokens) := by
  intro i hi t ht
  have hlength := length_take_upToEnd hk
  rw [terminated_movedAway, movedAway, List.getElem?_append_left (by omega),
    List.getElem?_take_of_lt (by omega)]
  exact getElem?_upToEnd (by omega) ht

theorem getElem?_movedAway :
    (terminated (movedAway k kind place tokens))[k + 1]? = some ⟨kind, "", place⟩ := by
  have hlength := length_take_upToEnd hk
  rw [terminated_movedAway, movedAway, List.getElem?_append_right hlength.le, hlength, Nat.sub_self]
  rfl

end

end Token

open Token

namespace Tandem

variable {d : Dialect} {k : Nat}

/-- Two readings that are followed up to an index. -/
def upTo (d : Dialect) (k : Nat) (tokens tokens' : List Token) : Tandem :=
  { Pairing.itself d .any with
    near := (· ≤ k)
    length := (words tokens).length
    length' := (words tokens').length
    near_of_le := Nat.le_trans }

/-- Tokens that are left in two streams, the same up to an index and of the
same kind at the next one. By induction on the tokens of the first; an end
mark in one of them is one in the other. -/
theorem alike_upTo {tokens tokens' pending pending' : List Token} {final final' : Token}
    (hwords : ∀ t ∈ pending, t.kind ≠ .eof) (hfinal : final.kind = .eof)
    (hwords' : ∀ t ∈ pending', t.kind ≠ .eof) (hfinal' : final'.kind = .eof) {i : Nat}
    (hi : i ≤ k + 1) (hsame : ∀ j t, i + j ≤ k → (pending ++ [final])[j]? = some t →
      (pending' ++ [final'])[j]? = some t)
    (hkind : ∀ j t, i + j = k + 1 → (pending ++ [final])[j]? = some t →
      ∃ t', (pending' ++ [final'])[j]? = some t' ∧ t'.kind = t.kind) :
    (upTo d k tokens tokens').Alike i pending final pending' final' := by
  have hhead {pending : List Token} {final : Token} :
      (pending ++ [final])[0]? = some (pending.headD final) := by
    cases pending <;> rfl
  induction pending generalizing i pending' with
  | nil =>
    obtain hlt | rfl := hi.lt_or_eq
    · have hmark := hsame 0 final (Nat.le_of_lt_succ hlt) rfl
      rw [hhead, Option.some_inj] at hmark
      cases pending' with
      | nil => exact .nil ⟨hmark, trivial⟩
      | cons t' rest' =>
        refine absurd ?_ (hwords' t' List.mem_cons_self)
        rw [← hfinal, ← hmark]
        rfl
    · obtain ⟨t', ht', hk⟩ := hkind 0 final rfl rfl
      rw [hhead, Option.some_inj] at ht'
      exact .far (Nat.not_succ_le_self k) (ht' ▸ hk)
  | cons t rest ih =>
    obtain hlt | rfl := hi.lt_or_eq
    · have ht := hsame 0 t (Nat.le_of_lt_succ hlt) rfl
      rw [hhead, Option.some_inj] at ht
      cases pending' with
      | nil => exact absurd (ht ▸ hfinal') (hwords t List.mem_cons_self)
      | cons t' rest' =>
        refine .cons ⟨ht, trivial⟩ (ih (fun u hu => hwords u (List.mem_cons_of_mem _ hu))
          (fun u hu => hwords' u (List.mem_cons_of_mem _ hu)) (by omega) (fun j u hj hu => ?_)
          fun j u hj hu => ?_)
        · exact hsame (j + 1) u (by omega) hu
        · exact hkind (j + 1) u (by omega) hu
    · obtain ⟨t', ht', hk⟩ := hkind 0 t rfl rfl
      rw [hhead, Option.some_inj] at ht'
      exact .far (Nat.not_succ_le_self k) (ht' ▸ hk)

end Tandem

/-- What stands behind the first end mark does not matter: it is no part of
the state that reading begins with. -/
theorem ReadState.ofTokens_append {before : List Token} {mark : Token}
    (hbefore : ∀ t ∈ before, t.kind ≠ .eof) (hmark : mark.kind = .eof) (after : List Token) :
    ReadState.ofTokens (before ++ mark :: after) = ⟨before, mark, 0, .empty, [], []⟩ := by
  have hpending := words_append hbefore hmark after
  have hfinal := endMark_append hbefore hmark after
  unfold words at hpending
  rw [ReadState.ofTokens, hpending, hfinal]

namespace Program

variable {d : Dialect} {library : Bool} {tokens tokens' : List Token} {e : CompileError} {k : Nat}

/-- **A unit cannot be read**, because of an error that is found with the
cursor at an index of the stream. -/
def FailsAt (d : Dialect) (library : Bool) (tokens : List Token) (e : CompileError) (k : Nat) :
    Prop :=
  ∃ s, Read.statements ((words tokens).length + 1) ⟨d, 0, none⟩ (.unit library)
    (ReadState.ofTokens tokens) = .error e s ∧ s.taken = k

/-- A unit is refused exactly if its reading fails somewhere, with the cursor
at some index. -/
theorem ofTokens_eq_error_iff :
    ofTokens d library tokens = .error e ↔ ∃ k, FailsAt d library tokens e k := by
  have hlength : (words tokens).length = (ReadState.ofTokens tokens).pending.length := rfl
  unfold ofTokens FailsAt
  dsimp only
  rw [hlength]
  split
  · next hok =>
    rw [hok]
    constructor
    · intro h
      cases h
    · rintro ⟨k, s, h, -⟩
      cases h
  · next e' s herror =>
    rw [herror]
    constructor
    · rintro ⟨rfl⟩
      exact ⟨s.taken, s, rfl, rfl⟩
    · rintro ⟨k, s', h, -⟩
      cases h
      rfl

/-- **A failure is one of all lists that are the same up to its index** and go
on with a token of the same kind. The two readings are followed up to the
index; as the first of them fails there, that is far enough. -/
theorem FailsAt.of_kinds (h : FailsAt d library tokens e k) (hagree : AgreeUpTo k tokens tokens')
    (hnext : ∀ t, (terminated tokens)[k + 1]? = some t →
      ∃ t', (terminated tokens')[k + 1]? = some t' ∧ t'.kind = t.kind) :
    FailsAt d library tokens' e k := by
  obtain ⟨s, herror, rfl⟩ := h
  have hproper (tokens : List Token) := ReadState.proper_ofTokens tokens
  have halike : (Tandem.upTo d s.taken tokens tokens').Alike 0 (words tokens)
      (ReadState.endMark tokens) (words tokens') (ReadState.endMark tokens') := by
    refine Tandem.alike_upTo (hproper tokens).words (hproper tokens).final (hproper tokens').words
      (hproper tokens').final (Nat.zero_le _) (fun j t hj ht => ?_) fun j t hj ht => ?_
    · rw [Nat.zero_add] at hj
      exact hagree.upToEnd hj ht
    · rw [Nat.zero_add] at hj
      subst hj
      have hlt : s.taken + 1 < (upToEnd tokens).length := (List.getElem?_eq_some_iff.mp ht).1
      rw [length_upToEnd] at hlt
      obtain ⟨t', ht', hkind⟩ := hnext t (getElem?_terminated ht)
      exact ⟨t', getElem?_upToEnd (hagree.le_length (Nat.le_of_lt_succ hlt) (le_refl _)) ht', hkind⟩
  have hstates : (Tandem.upTo d s.taken tokens tokens').States (.ofTokens tokens)
      (.ofTokens tokens') :=
    ⟨⟨hproper _, ReadState.length_ofTokens _, fun t _ => ⟨t, rfl, trivial⟩⟩, hproper _,
      ReadState.length_ofTokens _, halike, rfl, rfl, rfl, .nil⟩
  obtain ⟨-, hboth⟩ := ((Tandem.tells_unit (T := .upTo d s.taken tokens tokens') library).on _
    hstates.first (Nat.zero_le _) trivial).error e s herror
  obtain ⟨e', s', he, herror', hs'⟩ := hboth _ hstates (Nat.le_refl _)
  obtain rfl : e' = e := he.1
  exact ⟨s', herror', hs'.taken⟩

theorem FailsAt.of_agree (h : FailsAt d library tokens e k)
    (hagree : AgreeUpTo (k + 1) tokens tokens') : FailsAt d library tokens' e k :=
  h.of_kinds (fun i hi => hagree i (Nat.le_succ_of_le hi)) fun t ht =>
    ⟨t, hagree _ (le_refl _) t ht, rfl⟩

theorem FailsAt.isAt (h : FailsAt d library tokens e k) : e.IsAt (upToEnd tokens) := by
  obtain ⟨s, herror, -⟩ := h
  have hbodies := Tandem.bodies_statements (c := 0) ((words tokens).length + 1)
    (T := .itself d (.onTokens (upToEnd tokens)) (.ofTokens tokens))
  exact (hbodies.reads _ _ _ rfl (.unit library)).blames (ReadState.proper_ofTokens tokens)
    (Nat.zero_le _) trivial (fun _ ht => ht) herror

/-- **A failure points at a token that is not behind the cursor.** If it
points at any other, that token may be moved away without the failure, which
then points at no token of the new stream; and that cannot be. -/
theorem FailsAt.exists_token (h : FailsAt d library tokens e k) :
    ∃ i ≤ k, ∃ t, (terminated tokens)[i]? = some t ∧ e.span? = some t.span := by
  obtain ⟨blamed, hblamed, fault, -, rfl⟩ := h.isAt
  obtain hle | hlt := le_or_gt (words tokens).length k
  · -- the cursor is at the end mark, and there is nothing behind it
    obtain ⟨i, hi, hget⟩ := List.getElem_of_mem hblamed
    have hget : (upToEnd tokens)[i]? = some blamed := List.getElem?_eq_some_iff.mpr ⟨hi, hget⟩
    rw [length_upToEnd] at hi
    exact ⟨i, by omega, blamed, getElem?_terminated hget, rfl⟩
  · obtain ⟨ahead, hahead⟩ := exists_getElem?_upToEnd (Nat.succ_le_of_lt hlt)
    let place : Position := ⟨blamed.span.offset + 1, 1, 1⟩
    have hmoved := h.of_kinds (agreeUpTo_movedAway hlt ahead.kind place) fun t ht => by
      obtain rfl := Option.some.inj (ht.symm.trans (getElem?_terminated hahead))
      exact ⟨_, getElem?_movedAway hlt t.kind place, rfl⟩
    obtain ⟨t, ht, fault', -, herror⟩ := hmoved.isAt
    have hspan : blamed.span = t.span := Option.some.inj (congrArg CompileError.span? herror)
    have ht := (upToEnd_isPrefix _).subset ht
    rw [terminated_movedAway] at ht
    obtain ht | ht := List.mem_append.mp ht
    · obtain ⟨i, hget⟩ := List.getElem?_of_mem ht
      rw [List.getElem?_take] at hget
      split at hget
      · next hi =>
        refine ⟨i, Nat.le_of_lt_succ hi, t, getElem?_terminated hget, ?_⟩
        rw [← hspan]
        rfl
      · cases hget
    · -- a token that was moved away is not at the place of the error
      have hoffset : t.span.offset = blamed.span.offset + 1 := by
        simp only [List.mem_cons, List.not_mem_nil, or_false] at ht
        obtain rfl | rfl := ht <;> rfl
      rw [hspan] at hoffset
      omega

/-- The parser fails where the reader does, and its cursor stands there. -/
theorem failsAt_iff_parse : FailsAt d library tokens e k ↔
    ∃ p, Parser.parse (Parser.ofTokens d library tokens) = .error e p ∧ p.cursor = k := by
  have hfollows := Parser.follows_parse d library tokens
  have hview := Parser.view_ofTokens d library tokens
  constructor
  · rintro ⟨s, herror, rfl⟩
    obtain ⟨-, p, hparse, -, rfl⟩ := hfollows.error e s (hview.symm ▸ herror)
    exact ⟨p, hparse, rfl⟩
  · rintro ⟨p, hparse, rfl⟩
    obtain ⟨s, herror, -, -, rfl⟩ := hfollows.exists_error hparse
    exact ⟨p.view, hview ▸ herror, rfl⟩

/-- **A parse depends only on what was read.** What stands behind the first
end mark does not matter. If a parse fails with the cursor at an index, it
fails with the same error on all tokens that are the same up to the next
index, and the error points at a token that is not behind the cursor. All of
this holds of the parser with a state of its own, too: it gives the same, and
when it fails, its cursor stands at the index. -/
theorem ofTokens_local (d : Dialect) (library : Bool) :
    (∀ before mark after after', (∀ t ∈ before, t.kind ≠ .eof) → mark.kind = .eof →
      ofTokens d library (before ++ mark :: after) =
        ofTokens d library (before ++ mark :: after') ∧
      Parser.program d library (before ++ mark :: after) =
        Parser.program d library (before ++ mark :: after')) ∧
    (∀ tokens e, (ofTokens d library tokens = .error e ↔ ∃ k, FailsAt d library tokens e k) ∧
      (Parser.program d library tokens = .error e ↔ ∃ k, FailsAt d library tokens e k)) ∧
    (∀ tokens e k, FailsAt d library tokens e k ↔
      ∃ p, Parser.parse (Parser.ofTokens d library tokens) = .error e p ∧ p.cursor = k) ∧
    ∀ tokens e k, FailsAt d library tokens e k →
      (∀ tokens', AgreeUpTo (k + 1) tokens tokens' →
        FailsAt d library tokens' e k ∧ ofTokens d library tokens' = .error e) ∧
      ∃ i ≤ k, ∃ t, (terminated tokens)[i]? = some t ∧ e.span? = some t.span := by
  refine ⟨?_, fun tokens e => ⟨ofTokens_eq_error_iff, ?_⟩, fun _ _ _ => failsAt_iff_parse,
    fun tokens e k h => ⟨?_, h.exists_token⟩⟩
  · intro before mark after after' hbefore hmark
    rw [Parser.program_eq, Parser.program_eq, and_self]
    unfold ofTokens
    rw [ReadState.ofTokens_append hbefore hmark, ReadState.ofTokens_append hbefore hmark]
  · rw [Parser.program_eq]
    exact ofTokens_eq_error_iff
  · intro tokens' hagree
    have hfails := h.of_agree hagree
    exact ⟨hfails, ofTokens_eq_error_iff.mpr ⟨k, hfails⟩⟩

/-- An assignment to a name that has no meaning, and a statement after it. -/
def lateTokens : List Token :=
  [⟨.set, "set", ⟨0, 1, 1⟩⟩, ⟨.identifier, "x", ⟨4, 1, 5⟩⟩, ⟨.number, "1", ⟨6, 1, 7⟩⟩,
    ⟨.out, "out", ⟨8, 2, 1⟩⟩, ⟨.number, "2", ⟨12, 2, 5⟩⟩]

/-- The name is asked about after the value was taken, so the cursor is at the
next statement; whatever follows that statement, the error is the same and
points at the name. -/
theorem ofTokens_local_late :
    FailsAt .maple false lateTokens (.atSpan (.undeclared "x") ⟨4, 1, 1, 5⟩) 3 ∧
    (∃ p, Parser.parse (Parser.ofTokens .maple false lateTokens) =
      .error (.atSpan (.undeclared "x") ⟨4, 1, 1, 5⟩) p ∧ p.cursor = 3) ∧
    (∀ rest, ofTokens .maple false (lateTokens ++ rest) =
      .error (.atSpan (.undeclared "x") ⟨4, 1, 1, 5⟩)) ∧
    (∃ i ≤ 3, ∃ t, (terminated lateTokens)[i]? = some t ∧
      (CompileError.atSpan (.undeclared "x") ⟨4, 1, 1, 5⟩).span? = some t.span) ∧
    ofTokens .maple false ([] ++ .eof .start :: lateTokens) =
      ofTokens .maple false ([] ++ .eof .start :: []) ∧
    Parser.program .maple false ([] ++ .eof .start :: lateTokens) =
      Parser.program .maple false ([] ++ .eof .start :: []) := by
  obtain ⟨hbehind, -, hparse, hlocal⟩ := ofTokens_local .maple false
  have hfails : FailsAt .maple false lateTokens (.atSpan (.undeclared "x") ⟨4, 1, 1, 5⟩) 3 :=
    ⟨_, rfl, rfl⟩
  obtain ⟨hagree, htoken⟩ := hlocal _ _ _ hfails
  refine ⟨hfails, (hparse _ _ _).mp hfails, fun rest => (hagree _ ?_).2, htoken,
    hbehind _ _ _ _ ?_ rfl⟩
  · exact agreeUpTo_append (by decide) rest
  · exact List.forall_mem_nil _

end Program

end MapleCompiler
