import MapleCompiler.Proofs.Language.Literal
import MapleCompiler.Proofs.Token.Vocabulary

/-!
# Literals among the lexemes

The class of a literal is read off its text alone, while its kind as a lexeme
was decided by the scanner. The two agree: a number is digits, perhaps with a
fraction, and a truth value is one of two reserved words, so every lexeme of a
literal kind has a class (`Lexeme.exists_classify`).
-/

namespace MapleCompiler

/-- A number that is all of a text: digits, and perhaps a fraction, which is a
point and at least one digit. -/
theorem Piece.number_eq_lexeme {cs : List Char} (h : number cs = .lexeme .number cs.length) :
    ∃ whole, (∀ c ∈ whole, c.isDigit = true) ∧
      (cs = whole ∨ ∃ fraction, fraction ≠ [] ∧ (∀ c ∈ fraction, c.isDigit = true) ∧
        cs = whole ++ '.' :: fraction) := by
  obtain ⟨whole, after, rfl, hwhole, hafter⟩ := exists_run Char.isDigit cs
  refine ⟨whole, hwhole, ?_⟩
  rw [number_append hwhole hafter, List.length_append] at h
  have hshort (h : Piece.lexeme .number whole.length =
      .lexeme .number (whole.length + after.length)) : whole ++ after = whole := by
    have hlength := (Piece.lexeme.inj h).2
    have hnil : after = [] := List.eq_nil_of_length_eq_zero (by omega)
    rw [hnil, List.append_nil]
  unfold numberBefore at h
  split at h
  · next c rest =>
    split at h
    · next hc =>
      -- the fraction reaches to the end of the text, so all of it is digits
      have hlength := (Piece.lexeme.inj h).2
      rw [List.length_cons, List.length_cons] at hlength
      have hrun : rest.takeWhile Char.isDigit = rest :=
        (List.takeWhile_prefix _).eq_of_length (by unfold runLength at hlength; omega)
      have hrest : ∀ c ∈ rest, c.isDigit = true := by
        rw [← hrun]
        exact List.all_eq_true.mp List.all_takeWhile
      exact .inr ⟨c :: rest, List.cons_ne_nil _ _, List.forall_mem_cons.mpr ⟨hc, hrest⟩, rfl⟩
    · exact .inl (hshort h)
  · exact .inl (hshort h)

namespace Lexeme

variable {d : Dialect} {kind : TokenKind} {x : String}

/-- A lexeme of a literal kind is a number or a reserved word: no mark has
such a kind, and neither has a library name. -/
theorem number_or_keyword (h : Lexeme d kind x) (hkind : kind.isLiteral = true) :
    (∃ c cs, x = String.ofList (c :: cs) ∧ c.isDigit = true ∧
      Piece.number cs = .lexeme .number cs.length) ∨ (x, kind) ∈ d.keywords := by
  obtain ⟨c, cs, hx, hread⟩ := h
  have hx : x = String.ofList (c :: cs) := by rw [← hx, String.ofList_toList]
  unfold Piece.read at hread
  split at hread
  · cases hread
  split at hread
  · cases hread
  split at hread
  · next hc =>
    obtain rfl := Piece.kind_of_number hread
    exact .inl ⟨c, cs, hx, hc, hread⟩
  split at hread
  · obtain ⟨_, -, -, ⟨rfl, -⟩ | ⟨rfl, -⟩⟩ := Piece.libraryName_eq_lexeme hread <;> cases hkind
  split at hread
  · obtain ⟨hk, hlength⟩ := Piece.lexeme.inj hread
    rw [hlength, List.take_length, ← hx] at hk
    cases hkeyword : d.keyword? x with
    | none =>
      rw [hkeyword] at hk
      obtain rfl := hk
      cases hkind
    | some kind' =>
      rw [hkeyword] at hk
      obtain rfl := hk
      obtain ⟨before, after, htable, -⟩ := List.lookup_eq_some_iff.mp hkeyword
      right
      rw [htable]
      simp
  · have hmark := Piece.kind_of_mark hread
    have hnone : ∀ k ∈ d.marks.map Prod.snd, k.isLiteral = false := by cases d <;> decide
    rw [hnone kind hmark] at hkind
    cases hkind

/-- **Every lexeme of a literal kind has a class.** -/
theorem exists_classify (h : Lexeme d kind x) (hkind : kind.isLiteral = true) :
    ∃ literal, Literal.classify x = some literal := by
  obtain ⟨c, cs, rfl, hc, hnumber⟩ | hkeyword := h.number_or_keyword hkind
  · obtain ⟨whole, hwhole, rfl | ⟨fraction, hne, hfraction, rfl⟩⟩ :=
      Piece.number_eq_lexeme hnumber
    · obtain hclass | hclass := Literal.classify_digits (List.cons_ne_nil c cs)
        (List.forall_mem_cons.mpr ⟨hc, hwhole⟩)
      · exact ⟨_, hclass⟩
      · exact ⟨_, hclass⟩
    · exact ⟨_, Literal.classify_fraction (List.cons_ne_nil c whole)
        (List.forall_mem_cons.mpr ⟨hc, hwhole⟩) hne hfraction⟩
  · have htable : ∀ e ∈ d.keywords, e.2.isLiteral = true →
        (Literal.classify e.1).isSome = true := by cases d <;> decide +kernel
    exact Option.isSome_iff_exists.mp (htable _ hkeyword hkind)

end Lexeme

end MapleCompiler
