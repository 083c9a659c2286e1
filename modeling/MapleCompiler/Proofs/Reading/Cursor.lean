import Mathlib.Data.List.Infix
import Mathlib.Data.List.TakeWhile
import Mathlib.Logic.Relation
import MapleCompiler.Program.Parser
import MapleCompiler.Proofs.Reading.Primitive

/-!
# The cursor

A list of tokens can be anything: it may be empty, have no end mark, or have several.
Reading makes a stream of it that ends in an end mark (`Token.terminated`), and goes
over the stream with a cursor: the number of tokens that were taken. The state of a
reader keeps the tokens that are left, not the stream; it is *at* its cursor if these are
the tokens of the stream from there to the first end mark (`ReadState.AtCursor`).

Readers move in two ways only. They take the token at the cursor, unless it is the end
mark, or they change what is known and leave the tokens alone (`ReadState.Move`). So
wherever a run leads, the state is at its cursor (`ReadState.Leads.atCursor`), the cursor has
passed no end mark, and the stream has a token there, the one that is looked at
(`ReadState.AtCursor.getElem?_taken`).
-/

namespace MapleCompiler

namespace Token

/-- The tokens before the first end mark. -/
def words (tokens : List Token) : List Token := tokens.takeWhile (·.kind != .eof)

/-- The stream up to its first end mark. -/
def upToEnd (tokens : List Token) : List Token := words tokens ++ [ReadState.endMark tokens]

variable {tokens : List Token} {i : Nat} {t : Token}

/-- The tokens before the first end mark are no end marks. -/
theorem kind_of_mem_words (h : t ∈ words tokens) : t.kind ≠ .eof := by
  simpa using List.mem_takeWhile_imp h

/-- Where the first end mark of a list is known, so are the words before it.
What stands behind the mark plays no part. -/
theorem words_append {before : List Token} {mark : Token} (hbefore : ∀ t ∈ before, t.kind ≠ .eof)
    (hmark : mark.kind = .eof) (after : List Token) :
    words (before ++ mark :: after) = before := by
  rw [words, List.takeWhile_append_of_pos fun t ht => by simpa using hbefore t ht,
    List.takeWhile_cons_of_neg (by simpa using hmark), List.append_nil]

theorem endMark_append {before : List Token} {mark : Token}
    (hbefore : ∀ t ∈ before, t.kind ≠ .eof) (hmark : mark.kind = .eof) (after : List Token) :
    ReadState.endMark (before ++ mark :: after) = mark := by
  have hfind : (before ++ mark :: after).find? (·.kind == .eof) = some mark := by
    rw [List.find?_append, List.find?_eq_none.mpr fun t ht => by simpa using hbefore t ht,
      List.find?_cons_of_pos (by simpa using hmark), Option.none_or]
  rw [ReadState.endMark, hfind]

/-- A stream begins with the tokens that were given: at most an end mark is
added. -/
theorem isPrefix_terminated (tokens : List Token) : tokens <+: terminated tokens := by
  unfold terminated
  split
  · split
    · exact List.prefix_rfl
    · exact List.prefix_append _ _
  · next hnone =>
    rw [List.getLast?_eq_none_iff.mp hnone]
    exact List.nil_prefix

/-- What is read before the first end mark is the beginning of the stream. If
the list has an end mark, the stream may go on behind it, but no reader gets
there. -/
theorem upToEnd_isPrefix (tokens : List Token) : upToEnd tokens <+: terminated tokens := by
  cases hfind : tokens.find? (·.kind == .eof) with
  | some mark =>
    obtain ⟨hmark, before, after, rfl, hbefore⟩ := List.find?_eq_some_iff_append.mp hfind
    have hbefore : ∀ t ∈ before, t.kind ≠ .eof := fun t ht => by simpa using hbefore t ht
    rw [upToEnd, words_append hbefore (by simpa using hmark),
      endMark_append hbefore (by simpa using hmark)]
    exact .trans ⟨after, by simp⟩ (isPrefix_terminated _)
  | none =>
    -- no end mark in the list: all of it is read, and the mark is the one that is added
    have hall : ∀ t ∈ tokens, t.kind ≠ .eof := fun t ht => by
      simpa using List.find?_eq_none.mp hfind t ht
    have hwords : words tokens = tokens :=
      List.takeWhile_eq_self_iff.mpr fun t ht => by simpa using hall t ht
    rw [upToEnd, hwords, ReadState.endMark, hfind, terminated]
    cases hlast : tokens.getLast? with
    | none =>
      rw [List.getLast?_eq_none_iff.mp hlast]
      exact List.prefix_rfl
    | some t =>
      dsimp only
      rw [if_neg (hall t (List.mem_of_getLast? hlast))]

/-- The mark that ends the reading is an end mark, also where the list has
none and it was put there. -/
theorem kind_endMark (tokens : List Token) : (ReadState.endMark tokens).kind = .eof := by
  unfold ReadState.endMark
  split
  · next t h => simpa using List.find?_some h
  · split
    · rfl
    · rfl

theorem length_upToEnd (tokens : List Token) :
    (upToEnd tokens).length = (words tokens).length + 1 := by
  rw [upToEnd, List.length_append, List.length_singleton]

/-- The stream has a token at every index up to its first end mark. -/
theorem exists_getElem?_upToEnd (h : i ≤ (words tokens).length) :
    ∃ t, (upToEnd tokens)[i]? = some t :=
  ⟨_, List.getElem?_eq_getElem (by rw [length_upToEnd]; exact Nat.lt_succ_of_le h)⟩

/-- A token before the first end mark, or the mark itself: which of them it is
can be told from the index. -/
theorem kind_eq_eof_iff (h : (upToEnd tokens)[i]? = some t) :
    t.kind = .eof ↔ i = (words tokens).length := by
  unfold upToEnd at h
  constructor
  · intro heof
    by_contra hne
    obtain ⟨hi, -⟩ := List.getElem?_eq_some_iff.mp h
    have hlt : i < (words tokens).length := by
      rw [List.length_append, List.length_singleton] at hi
      omega
    rw [List.getElem?_append_left hlt] at h
    exact kind_of_mem_words (List.mem_of_getElem? h) heof
  · rintro rfl
    rw [List.getElem?_concat_length] at h
    rw [← Option.some.inj h]
    exact kind_endMark tokens

/-- An index up to the first end mark is one of the stream, and the token
there is the same. -/
theorem getElem?_terminated (h : (upToEnd tokens)[i]? = some t) :
    (terminated tokens)[i]? = some t := by
  obtain ⟨rest, hrest⟩ := upToEnd_isPrefix tokens
  obtain ⟨hi, -⟩ := List.getElem?_eq_some_iff.mp h
  rw [← hrest, List.getElem?_append_left hi, h]

end Token

open Token

namespace ReadState

variable {tokens : List Token} {s s' : ReadState}

/-- **The state stands at its cursor**: what is left to read is what the
stream has from there up to its first end mark. The cursor is the number of
tokens that were taken, and it may stand at the mark but not behind it. -/
structure AtCursor (tokens : List Token) (s : ReadState) : Prop where
  pending_eq : s.pending = (words tokens).drop s.taken
  final_eq : s.final = endMark tokens
  taken_le : s.taken ≤ (words tokens).length

/-- Reading begins with the cursor at the first token. -/
theorem atCursor_ofTokens (tokens : List Token) : (ofTokens tokens).AtCursor tokens where
  pending_eq := List.drop_zero.symm
  final_eq := rfl
  taken_le := Nat.zero_le _

namespace AtCursor

theorem final_kind (h : s.AtCursor tokens) : s.final.kind = .eof := by
  rw [h.final_eq]
  exact kind_endMark tokens

/-- Tokens that were taken and tokens that are left make up the words of the
list. -/
theorem taken_add_length (h : s.AtCursor tokens) :
    s.taken + s.pending.length = (words tokens).length := by
  rw [h.pending_eq, List.length_drop]
  exact Nat.add_sub_cancel' h.taken_le

/-- **The stream has a token at the cursor**, and it is the one that is looked
at. -/
theorem getElem?_taken (h : s.AtCursor tokens) : (upToEnd tokens)[s.taken]? = some s.current := by
  unfold current upToEnd
  rw [h.pending_eq, h.final_eq]
  obtain hlt | heq := h.taken_le.lt_or_eq
  · rw [List.getElem?_append_left hlt, List.headD_eq_head?_getD, List.head?_drop,
      List.getElem?_eq_getElem hlt]
    rfl
  · rw [heq, List.getElem?_concat_length, List.drop_length]
    rfl

/-- Taking a token moves the cursor by one, and the end mark stays: at the
mark the state does not change, so it stands at its cursor there too. -/
theorem next (h : s.AtCursor tokens) : s.next.AtCursor tokens := by
  unfold ReadState.next
  split
  · exact h
  · next t rest hpending =>
    have hlength := h.taken_add_length
    rw [hpending, List.length_cons] at hlength
    have htail := congrArg List.tail h.pending_eq
    rw [hpending, List.tail_cons, List.tail_drop] at htail
    exact ⟨htail, h.final_eq, by dsimp only; omega⟩

end AtCursor

/-! ## Moves -/

/-- **A move of a reader**: it takes the token at the cursor, or changes what
is known. -/
inductive Move : ReadState → ReadState → Prop
  | take (s : ReadState) : Move s s.next
  | know {s s' : ReadState} (hpending : s'.pending = s.pending) (hfinal : s'.final = s.final)
      (htaken : s'.taken = s.taken) : Move s s'

/-- The states that some moves lead to. -/
def Leads : ReadState → ReadState → Prop := Relation.ReflTransGen Move

/-- One move keeps the state at its cursor. -/
theorem Move.atCursor (h : s.Move s') (hs : s.AtCursor tokens) : s'.AtCursor tokens := by
  cases h with
  | take => exact hs.next
  | know hpending hfinal htaken =>
    refine ⟨?_, hfinal.trans hs.final_eq, htaken ▸ hs.taken_le⟩
    rw [hpending, htaken]
    exact hs.pending_eq

theorem Move.taken_le (h : s.Move s') : s.taken ≤ s'.taken := by
  cases h with
  | take =>
    unfold next
    split
    · exact Nat.le_refl _
    · exact Nat.le_succ _
  | know _ _ htaken => exact htaken.ge

/-- **Wherever moves lead, the state stands at its cursor.** By induction on
the moves, with `Move.atCursor` for each of them. -/
theorem Leads.atCursor (h : s.Leads s') (hs : s.AtCursor tokens) : s'.AtCursor tokens := by
  induction h with
  | refl => exact hs
  | tail _ hmove ih => exact hmove.atCursor ih

/-- The cursor never goes back, however many moves are made. -/
theorem Leads.taken_le (h : s.Leads s') : s.taken ≤ s'.taken := by
  induction h with
  | refl => exact Nat.le_refl _
  | tail _ hmove ih => exact ih.trans hmove.taken_le

end ReadState

end MapleCompiler
