import MapleCompiler.Language.ValueType

/-!
# Literals as numbers

`Literal.index?` reads a run of digits as a number of 64 bits. Here stand the
facts about it that programs rest on: what it gives is below the bound, and it
reads back the digits of every number that is. Digits, with or without a
fraction, have a class (`Literal.classify_digits`, `Literal.classify_fraction`),
and besides them only the two truth values have one (`Literal.classify_cases`).
-/

namespace MapleCompiler.Literal

/-- **What is read as an index**: a whole number that fits in a word. A
fraction is no index, and neither is a truth value. -/
theorem index?_eq_some {x : String} {n : Nat} :
    index? x = some n ↔
      (classify x = some integer ∨ classify x = some bit) ∧ valueFrom 0 x.toList = n ∧
        n < indexBound := by
  have hvalue : (if valueFrom 0 x.toList < indexBound then some (valueFrom 0 x.toList) else none) =
      some n ↔ valueFrom 0 x.toList = n ∧ n < indexBound := by
    split
    · next hlt =>
      rw [Option.some.injEq]
      exact ⟨fun h => ⟨h, h ▸ hlt⟩, And.left⟩
    · next hge => exact ⟨nofun, fun ⟨h, hlt⟩ => absurd (h ▸ hlt) hge⟩
  unfold index?
  cases classify x with
  | none => simp
  | some literal => cases literal <;> simp [hvalue]

theorem index?_lt {x : String} {n : Nat} (h : index? x = some n) : n < indexBound :=
  (index?_eq_some.mp h).2.2

/-! ## The digits of a number -/

theorem valueFrom_toDigits (n : Nat) : valueFrom 0 (Nat.toDigits 10 n) = n := by
  show Nat.ofDigitChars 10 (Nat.toDigits 10 n) 0 = n
  exact Nat.ofDigitChars_toDigits (by decide) (by decide)

theorem ne_point_of_digits {cs : List Char} (h : ∀ c ∈ cs, c.isDigit = true) :
    ∀ c ∈ cs, (c != '.') = true := by
  intro c hc
  by_cases he : c = '.'
  · rw [he] at hc
    exact absurd (h _ hc) (by decide)
  · simpa using he

/-- A run of digits is the text of a whole number. The digits zero and one by
themselves have a class of their own. -/
theorem classify_digits {cs : List Char} (hne : cs ≠ []) (h : ∀ c ∈ cs, c.isDigit = true) :
    classify (String.ofList cs) = some integer ∨ classify (String.ofList cs) = some bit := by
  have hpoint := ne_point_of_digits h
  have hword {w : String} (hw : w.toList.head?.any (!Char.isDigit ·) = true) :
      String.ofList cs ≠ w := by
    rintro rfl
    rw [String.toList_ofList] at hw
    obtain ⟨c, rest, rfl⟩ := List.exists_cons_of_ne_nil hne
    simp [h c List.mem_cons_self] at hw
  have hbool : ¬(String.ofList cs = "true" ∨ String.ofList cs = "false") :=
    not_or.mpr ⟨hword (by decide), hword (by decide)⟩
  unfold classify
  rw [if_neg hbool]
  split
  · exact .inr rfl
  · left
    dsimp only
    unfold fraction? ofDigits?
    have htake : cs.takeWhile (· != '.') = cs := by
      simpa using @List.takeWhile_append_of_pos _ _ cs [] hpoint
    have hdrop : cs.dropWhile (· != '.') = [] := by
      simpa using @List.dropWhile_append_of_pos _ _ cs [] hpoint
    rw [String.toList_ofList, htake, hdrop, if_neg]
    simpa [hne] using h

theorem classify_fraction {whole fraction : List Char} (hwhole : whole ≠ [])
    (hdigits : ∀ c ∈ whole, c.isDigit = true) (hfraction : fraction ≠ [])
    (hdigits' : ∀ c ∈ fraction, c.isDigit = true) :
    classify (String.ofList (whole ++ '.' :: fraction)) = some decimal := by
  have hpoint := ne_point_of_digits hdigits
  have hword {w : String} (hw : '.' ∉ w.toList) :
      String.ofList (whole ++ '.' :: fraction) ≠ w := by
    rintro rfl
    simp at hw
  have htake : (whole ++ '.' :: fraction).takeWhile (· != '.') = whole := by
    rw [List.takeWhile_append_of_pos hpoint]
    simp
  have hdrop : (whole ++ '.' :: fraction).dropWhile (· != '.') = '.' :: fraction := by
    rw [List.dropWhile_append_of_pos hpoint]
    simp
  unfold classify
  rw [if_neg (not_or.mpr ⟨hword (by decide), hword (by decide)⟩),
    if_neg (not_or.mpr ⟨hword (by decide), hword (by decide)⟩)]
  dsimp only
  unfold fraction? ofDigits?
  rw [String.toList_ofList, htake, hdrop, if_neg (by simpa [hwhole] using hdigits)]
  dsimp only
  rw [if_neg (by simpa [hfraction] using hdigits')]

/-- **Which texts have a class**: truth values, digits, and digits with a
fraction. -/
theorem classify_cases {x : String} {literal : Literal} (h : classify x = some literal) :
    literal = boolean ∧ (x = "true" ∨ x = "false") ∨
      (literal = integer ∨ literal = bit) ∧ x.toList ≠ [] ∧ (∀ c ∈ x.toList, c.isDigit = true) ∨
      literal = decimal ∧ ∃ whole fraction, x.toList = whole ++ '.' :: fraction ∧ whole ≠ [] ∧
        (∀ c ∈ whole, c.isDigit = true) ∧ fraction ≠ [] ∧ ∀ c ∈ fraction, c.isDigit = true := by
  unfold classify at h
  split at h
  · next hbool => exact .inl ⟨(Option.some.inj h).symm, hbool⟩
  split at h
  · next hbit =>
    refine .inr (.inl ⟨.inr (Option.some.inj h).symm, ?_⟩)
    obtain rfl | rfl := hbit <;> simp
  dsimp only at h
  unfold ofDigits? at h
  split at h
  · cases h
  next hdigits =>
  obtain ⟨hne, hwhole⟩ := not_or.mp hdigits
  have hwhole : ∀ c ∈ x.toList.takeWhile (· != '.'), c.isDigit = true := by simpa using hwhole
  have hsplit := @List.takeWhile_append_dropWhile _ (· != '.') x.toList
  -- what is left after the whole part begins with a point, if anything is left
  cases hdrop : x.toList.dropWhile (· != '.') with
  | nil =>
    rw [fraction?, hdrop] at h
    rw [hdrop, List.append_nil] at hsplit
    rw [hsplit] at hne hwhole
    exact .inr (.inl ⟨.inl (Option.some.inj h).symm, hne, hwhole⟩)
  | cons point fraction =>
    have hpoint := List.head?_dropWhile_not (· != '.') x.toList
    rw [hdrop] at hpoint
    have hpoint : point = '.' := by simpa using hpoint
    rw [hdrop, hpoint] at hsplit
    rw [fraction?, hdrop] at h
    dsimp only at h
    split at h
    · cases h
    next hfraction =>
    obtain ⟨hne', hfraction⟩ := not_or.mp hfraction
    exact .inr (.inr ⟨(Option.some.inj h).symm, _, fraction, hsplit.symm, hne, hwhole, hne',
      by simpa using hfraction⟩)

/-- **The digits of an index are read back** as the same index. -/
theorem index?_toString {n : Nat} (h : n < indexBound) : index? (toString n) = some n := by
  have hdigits : toString n = String.ofList (Nat.toDigits 10 n) := Nat.repr_eq_ofList_toDigits
  have hvalue : valueFrom 0 (toString n).toList = n := by
    rw [hdigits, String.toList_ofList, valueFrom_toDigits]
  have hclass := @classify_digits (Nat.toDigits 10 n) Nat.toDigits_ne_nil fun c hc =>
    Nat.isDigit_of_mem_toDigits (by decide) (by decide) hc
  unfold index?
  rw [hvalue, if_pos h]
  obtain hc | hc := hclass
  · rw [hdigits, hc]
  · rw [hdigits, hc]

end MapleCompiler.Literal
