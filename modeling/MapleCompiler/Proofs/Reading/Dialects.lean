import MapleCompiler.Proofs.Reading.Lockstep

/-!
# Tokens mean the same in all dialects

The dialects differ in the words and marks that a text may hold. Once it is cut into
tokens, a program is read without a look at its dialect: the same tokens are the same
program, or are refused for the same reason at the same place. The dialect is asked for
only when a message has to spell the words that may end a branch, and there it shows,
since one of the dialects has fewer of them.

Main statement: `Program.ofTokens_dialects`.
-/

namespace MapleCompiler

/-- **Errors that say the same in two dialects**, at the same place: only the
words that may end a branch are spelled in the dialect of the reading. -/
structure CompileError.SpelledIn (d d' : Dialect) (e e' : CompileError) : Prop where
  span_eq : e'.span? = e.span?
  library_eq : e'.library? = e.library?
  fault : e'.fault = e.fault ∨ ∃ found,
    e.fault = .unexpectedToken (d.describeClosers [.endWord, .elifWord, .elseWord]) found ∧
      e'.fault = .unexpectedToken (d'.describeClosers [.endWord, .elifWord, .elseWord]) found

theorem CompileError.SpelledIn.refl {d d' : Dialect} (e : CompileError) : SpelledIn d d' e e :=
  ⟨rfl, rfl, .inl rfl⟩

/-- The readings of the same tokens in two dialects. -/
def Pairing.dialects (d d' : Dialect) : Pairing where
  dialect := d
  dialect' := d'
  rename := id
  place := id
  token := Eq
  text := Eq
  error := CompileError.SpelledIn d d'
  warning := Eq
  rename_injective := Function.injective_id
  rename_zero := id_eq _
  kind_eq h := h ▸ rfl
  lexeme_eq h _ := h ▸ rfl
  classify_eq h _ := h ▸ rfl
  fixed_eq h _ := h ▸ rfl
  place_eq h _ := h ▸ rfl
  text_rename := Eq.refl
  text_lexeme h := h ▸ rfl
  error_at _ _ ht hx hy := by
    subst ht hx hy
    exact .refl _
  error_branch := by
    rintro t _ rfl hend
    simp only [CompileError.unexpected, if_neg hend]
    exact ⟨rfl, rfl, .inr ⟨t.lexeme, rfl, rfl⟩⟩
  warning_restore h _ := h ▸ rfl

/-- **Reading does not depend on the dialect.** The same tokens give the same
program with the same warnings in all dialects, or the same fault at the same
place, whose message may spell the words that end a branch. -/
theorem Program.ofTokens_dialects (d d' : Dialect) (library : Bool) (tokens : List Token) :
    (∃ unit, ofTokens d library tokens = .ok unit ∧ ofTokens d' library tokens = .ok unit) ∨
      ∃ e e', ofTokens d library tokens = .error e ∧ ofTokens d' library tokens = .error e' ∧
        e.SpelledIn d d' e' := by
  have hrules := paired_ofTokens (.dialects d d') library
    (List.forall₂_same.mpr fun t _ => Eq.refl t) (Eq.refl (ReadState.endMark tokens))
  dsimp only [Pairing.dialects] at hrules
  generalize ofTokens d library tokens = r, ofTokens d' library tokens = r' at hrules
  cases hrules with
  | ok h =>
    obtain ⟨hprogram, hwarnings⟩ := h
    rw [placed_id, placed_id, rename_id] at hprogram
    rw [List.forall₂_eq_eq_eq] at hwarnings
    exact .inl ⟨_, rfl, congrArg Except.ok (Prod.ext hprogram hwarnings.symm)⟩
  | error h => exact .inr ⟨_, _, rfl, rfl, h⟩

/-- The words that may end a branch are all that the messages differ in. -/
example : Dialect.legacy.describeClosers [.endWord, .elifWord, .elseWord] = "'end'" ∧
    Dialect.maple.describeClosers [.endWord, .elifWord, .elseWord] =
      "'end' or 'elif' or 'else'" := by decide

end MapleCompiler
