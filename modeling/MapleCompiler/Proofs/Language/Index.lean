import Mathlib.Data.List.Induction
import Mathlib.Data.Nat.Digits.Defs
import MapleCompiler.Proofs.Language.Literal

/-!
# Literals as indices

Sizes and indices are written as numbers of any length, with any number of zeros before
them, and have to fit in a word of 64 bits. `Literal.index?` is compared here with three
descriptions that do not mention it:

* `Literal.Denotes`, the number that the digits of a text give in base ten;
* the printed digits of a number, with zeros before them;
* `Literal.word?`, which gathers the number in a word from the first digit on and gives up
  as soon as a product or a sum overflows.

The last one never sees the whole number, only what its first digits give. It finds every
number that is too large nevertheless, because what is gathered does not become smaller by
further digits (`Literal.le_valueFrom`). Main statement: `Literal.index?_exact`.
-/

namespace MapleCompiler.Literal

variable {x : String} {n : Nat} {c : Char} {cs : List Char}

/-! ## Digits as a number -/

/-- The digits of a text, the least one first. -/
def digits (x : String) : List Nat := (x.toList.map fun c => c.toNat - '0'.toNat).reverse

/-- **A text denotes a number**: it is made of digits, and in base ten they
give the number. Zeros may stand before the others. -/
def Denotes (x : String) (n : Nat) : Prop :=
  x ≠ "" ∧ (∀ c ∈ x.toList, c.isDigit = true) ∧ Nat.ofDigits 10 (digits x) = n

theorem valueFrom_eq_ofDigits (x : String) :
    valueFrom 0 x.toList = Nat.ofDigits 10 (digits x) := by
  rw [digits, Nat.ofDigits_eq_foldr, List.foldr_reverse, List.foldl_map]
  show List.foldl _ 0 _ = List.foldl _ 0 _
  congr 1
  funext n c
  exact Nat.add_comm _ _

/-- The text of a whole number is made of digits, and there is at least
one. -/
theorem isDigit_of_classify {x : String}
    (h : classify x = some integer ∨ classify x = some bit) :
    x ≠ "" ∧ ∀ c ∈ x.toList, c.isDigit = true := by
  have hdigits (hne : x.toList ≠ []) (h : ∀ c ∈ x.toList, c.isDigit = true) :
      x ≠ "" ∧ ∀ c ∈ x.toList, c.isDigit = true :=
    ⟨fun hx => hne (String.toList_eq_nil_iff.mpr hx), h⟩
  obtain h | h := h
  all_goals
    obtain ⟨hc, -⟩ | ⟨-, hne, hx⟩ | ⟨hc, -⟩ := classify_cases h
    · cases hc
    · exact hdigits hne hx
    · cases hc

/-- **An index is the number that its text denotes**, in base ten and with
zeros before it or without. -/
theorem denotes_of_index? {x : String} {n : Nat} (h : index? x = some n) : Denotes x n := by
  obtain ⟨hclass, hvalue, -⟩ := index?_eq_some.mp h
  obtain ⟨hne, hdigits⟩ := isDigit_of_classify hclass
  exact ⟨hne, hdigits, by rw [← valueFrom_eq_ofDigits, hvalue]⟩

/-- **A number that is denoted and fits in a word is read as an index.** -/
theorem index?_of_denotes (h : Denotes x n) (hlt : n < indexBound) : index? x = some n := by
  obtain ⟨hne, hdigits, hvalue⟩ := h
  have hclass := classify_digits (String.toList_eq_nil_iff.not.mpr hne) hdigits
  rw [String.ofList_toList] at hclass
  exact index?_eq_some.mpr ⟨hclass, (valueFrom_eq_ofDigits x).trans hvalue, hlt⟩

/-- **What is not read as an index**: texts with another character than digits
or with none at all, and numbers that do not fit in a word. -/
theorem index?_eq_none :
    index? x = none ↔
      x = "" ∨ (∃ c ∈ x.toList, c.isDigit = false) ∨ indexBound ≤ Nat.ofDigits 10 (digits x) := by
  constructor
  · intro hnone
    by_contra hread
    obtain ⟨hne, hread⟩ := not_or.mp hread
    obtain ⟨hdigits, hlt⟩ := not_or.mp hread
    have hdigits : ∀ c ∈ x.toList, c.isDigit = true := by simpa using hdigits
    have hsome := index?_of_denotes ⟨hne, hdigits, rfl⟩ (Nat.lt_of_not_le hlt)
    rw [hnone] at hsome
    cases hsome
  · intro h
    refine Option.eq_none_iff_forall_ne_some.mpr fun n hn => ?_
    obtain ⟨hne, hdigits, hvalue⟩ := denotes_of_index? hn
    obtain hempty | ⟨c, hc, hdigit⟩ | hle := h
    · exact hne hempty
    · rw [hdigits c hc] at hdigit
      cases hdigit
    · rw [hvalue] at hle
      exact Nat.not_le_of_lt (index?_lt hn) hle

/-! ## Zeros before a number -/

theorem digit_lt_ten (h : c.isDigit = true) : c.toNat - '0'.toNat < 10 := by
  obtain ⟨-, hle⟩ := Char.isDigit_iff_toNat.mp h
  exact Nat.lt_of_le_of_lt (Nat.sub_le_sub_right hle _) (by decide)

theorem toDigits_digit (h : c.isDigit = true) : Nat.toDigits 10 (c.toNat - '0'.toNat) = [c] := by
  rw [Nat.toDigits_of_lt_base (digit_lt_ten h), List.singleton_inj]
  obtain ⟨hge, -⟩ := Char.isDigit_iff_toNat.mp h
  apply Char.toNat_inj.mp
  rw [Nat.toNat_digitChar_of_lt_ten (digit_lt_ten h)]
  exact Nat.add_sub_cancel' hge

theorem valueFrom_cons (n : Nat) (c : Char) (cs : List Char) :
    valueFrom n (c :: cs) = valueFrom (10 * n + (c.toNat - '0'.toNat)) cs :=
  List.foldl_cons ..

theorem valueFrom_append (n : Nat) (cs cs' : List Char) :
    valueFrom n (cs ++ cs') = valueFrom (valueFrom n cs) cs' :=
  List.foldl_append

theorem valueFrom_zeros (k : Nat) (cs : List Char) :
    valueFrom 0 (List.replicate k '0' ++ cs) = valueFrom 0 cs := by
  rw [valueFrom_append]
  congr 1
  show Nat.ofDigitChars 10 (List.replicate k '0') 0 = 0
  rw [Nat.ofDigitChars_replicate_zero, Nat.mul_zero]

/-- **Digits are a printed number with zeros before it.** By induction on the
digits from the right: one more digit is one more of the printed number. -/
theorem eq_zeros_append_toDigits (hne : cs ≠ []) (h : ∀ c ∈ cs, c.isDigit = true) :
    ∃ k, cs = List.replicate k '0' ++ Nat.toDigits 10 (valueFrom 0 cs) := by
  -- from the end, since the last digit of the text is the last one that is printed
  induction cs using List.reverseRecOn with
  | nil => exact absurd rfl hne
  | append_singleton cs c ih =>
    obtain ⟨hcs, hc⟩ := List.forall_mem_append.mp h
    have hc : c.isDigit = true := hc c List.mem_cons_self
    rw [valueFrom_append, valueFrom_cons, valueFrom, List.foldl_nil]
    obtain rfl | hne := eq_or_ne cs []
    · exact ⟨0, by simpa [valueFrom] using (toDigits_digit hc).symm⟩
    obtain ⟨k, hk⟩ := ih hne hcs
    obtain hzero | hpos := Nat.eq_zero_or_pos (valueFrom 0 cs)
    · -- so far only zeros, and the one that was the number is one before it now
      refine ⟨k + 1, ?_⟩
      rw [hzero, Nat.toDigits_of_lt_base (by decide)] at hk
      rw [hzero, Nat.mul_zero, Nat.zero_add, toDigits_digit hc, List.replicate_succ']
      exact congrArg (· ++ [c]) hk
    · refine ⟨k, ?_⟩
      rw [← Nat.toDigits_append_toDigits (by decide) hpos (digit_lt_ten hc), toDigits_digit hc,
        ← List.append_assoc, ← hk]

/-- **The texts that denote a number**: its printed digits, after any number
of zeros. -/
theorem denotes_iff_zeros :
    Denotes x n ↔ ∃ k, x = String.ofList (List.replicate k '0') ++ toString n := by
  rw [Nat.toString_eq_ofList_toDigits]
  constructor
  · rintro ⟨hne, hdigits, hvalue⟩
    obtain ⟨k, hk⟩ :=
      eq_zeros_append_toDigits (String.toList_eq_nil_iff.not.mpr hne) hdigits
    rw [valueFrom_eq_ofDigits, hvalue] at hk
    exact ⟨k, by rw [← String.ofList_append, ← hk, String.ofList_toList]⟩
  · rintro ⟨k, hx⟩
    rw [← String.ofList_append] at hx
    have hlist : x.toList = List.replicate k '0' ++ Nat.toDigits 10 n := by
      rw [hx, String.toList_ofList]
    refine ⟨fun hempty => ?_, fun c hc => ?_, ?_⟩
    · rw [hempty] at hlist
      exact Nat.toDigits_ne_nil (List.append_eq_nil_iff.mp hlist.symm).2
    · rw [hlist, List.mem_append] at hc
      obtain hzero | hdigit := hc
      · rw [List.eq_of_mem_replicate hzero]
        rfl
      · exact Nat.isDigit_of_mem_toDigits (by decide) (by decide) hdigit
    · rw [← valueFrom_eq_ofDigits, hlist, valueFrom_zeros, valueFrom_toDigits]

/-! ## Numbers gathered in a word -/

section Words

variable {k : Nat} {u v w : BitVec k}

/-- A product of words, if it fits in one. -/
def mulWord? (v w : BitVec k) : Option (BitVec k) :=
  if v.umulOverflow w then none else some (v * w)

/-- A sum of words, if it fits in one. -/
def addWord? (v w : BitVec k) : Option (BitVec k) :=
  if v.uaddOverflow w then none else some (v + w)

/-- A check for overflow lets a number through exactly if it is one of a word.
The value of the word is then the number, as nothing was cut off. -/
theorem checked_eq_some {overflow : Bool} (hover : overflow = true → 2 ^ k ≤ n)
    (hfits : ¬overflow = true → v.toNat = n) :
    (if overflow = true then none else some v) = some u ↔ n = u.toNat := by
  split
  · next h =>
    have hge := hover h
    exact ⟨nofun, fun heq => absurd u.isLt (Nat.not_lt_of_le (heq ▸ hge))⟩
  · next h => rw [Option.some.injEq, ← BitVec.toNat_inj, hfits h]

theorem mulWord?_eq_some : mulWord? v w = some u ↔ v.toNat * w.toNat = u.toNat :=
  checked_eq_some of_decide_eq_true BitVec.toNat_mul_of_not_umulOverflow

theorem addWord?_eq_some : addWord? v w = some u ↔ v.toNat + w.toNat = u.toNat :=
  checked_eq_some of_decide_eq_true BitVec.toNat_add_of_not_uaddOverflow

theorem exists_toNat_eq (h : n ≤ w.toNat) : ∃ v : BitVec k, v.toNat = n :=
  ⟨.ofNatLT n (Nat.lt_of_le_of_lt h w.isLt), BitVec.toNat_ofNatLT ..⟩

end Words

variable {v w : BitVec 64}

/-- **One more digit of a number in a word.** There is no result if the
character is not a digit, or if the number does not fit any more. -/
def appendDigit? (w : BitVec 64) (c : Char) : Option (BitVec 64) :=
  if c.isDigit then (mulWord? 10#64 w).bind (addWord? · (.ofNat 64 (c.toNat - '0'.toNat)))
  else none

/-- **The number of a text in a word**, gathered from the first digit on. -/
def word? (x : String) : Option (BitVec 64) :=
  if x = "" then none else x.toList.foldlM appendDigit? 0#64

/-- A step is taken exactly if its result fits in a word. -/
theorem appendDigit?_eq_some :
    appendDigit? w c = some v ↔
      c.isDigit = true ∧ 10 * w.toNat + (c.toNat - '0'.toNat) = v.toNat := by
  unfold appendDigit?
  rw [Option.ite_none_right_eq_some, Option.bind_eq_some_iff]
  refine and_congr_right fun hc => ?_
  have hdigit : (BitVec.ofNat 64 (c.toNat - '0'.toNat)).toNat = c.toNat - '0'.toNat := by
    rw [BitVec.toNat_ofNat]
    exact Nat.mod_eq_of_lt (Nat.lt_trans (digit_lt_ten hc) (by decide))
  simp only [mulWord?_eq_some, addWord?_eq_some, hdigit]
  constructor
  · rintro ⟨u, hu, hv⟩
    rw [← hv, ← hu]
    rfl
  · intro hv
    obtain ⟨u, hu⟩ := exists_toNat_eq (hv ▸ Nat.le_add_right (10 * w.toNat) _)
    exact ⟨u, hu.symm, hu ▸ hv⟩

/-- **Further digits do not make a number smaller.** So once a step does not
fit in a word, the number at the end does not either. -/
theorem le_valueFrom (n : Nat) (cs : List Char) : n ≤ valueFrom n cs := by
  show n ≤ Nat.ofDigitChars 10 cs n
  rw [Nat.ofDigitChars_eq_ofDigitChars_zero]
  exact Nat.le_add_right_of_le (Nat.le_mul_of_pos_left n (Nat.pow_pos (by decide)))

/-- **All steps are taken exactly if the number at the end fits in a word.**
By induction on the digits; a step that is refused shows that the number is
too large. -/
theorem foldlM_appendDigit?_eq_some :
    cs.foldlM appendDigit? w = some v ↔
      (∀ c ∈ cs, c.isDigit = true) ∧ valueFrom w.toNat cs = v.toNat := by
  induction cs generalizing w with
  | nil => simp [valueFrom, BitVec.toNat_inj]
  | cons c cs ih =>
    rw [List.foldlM_cons, List.forall_mem_cons, valueFrom_cons]
    show Option.bind _ _ = _ ↔ _
    rw [Option.bind_eq_some_iff]
    constructor
    · rintro ⟨u, hstep, hrun⟩
      obtain ⟨hc, hu⟩ := appendDigit?_eq_some.mp hstep
      obtain ⟨hcs, hvalue⟩ := ih.mp hrun
      rw [hu]
      exact ⟨⟨hc, hcs⟩, hvalue⟩
    · rintro ⟨⟨hc, hcs⟩, hvalue⟩
      -- what is gathered by this step is at most what comes out, so it fits too
      obtain ⟨u, hu⟩ := exists_toNat_eq (hvalue ▸ le_valueFrom _ cs)
      exact ⟨u, appendDigit?_eq_some.mpr ⟨hc, hu.symm⟩, ih.mpr ⟨hcs, hu ▸ hvalue⟩⟩

/-- **A text has a word exactly if it denotes the number of the word.** -/
theorem word?_eq_some : word? x = some v ↔ Denotes x v.toNat := by
  unfold word? Denotes
  split
  · next hempty => exact ⟨nofun, fun h => absurd hempty h.1⟩
  · next hne =>
    rw [foldlM_appendDigit?_eq_some, and_iff_right hne, ← valueFrom_eq_ofDigits]
    rfl

/-- **An index can be read in a word.** Reading in words with checks for
overflow gives the same as reading a number and comparing it at the end. -/
theorem index?_eq_word? (x : String) : index? x = (word? x).map BitVec.toNat := by
  refine Option.ext fun n => ?_
  rw [Option.map_eq_some_iff]
  constructor
  · intro h
    obtain ⟨v, hv⟩ : ∃ v : BitVec 64, v.toNat = n := ⟨.ofNatLT n (index?_lt h), rfl⟩
    exact ⟨v, word?_eq_some.mpr (hv ▸ denotes_of_index? h), hv⟩
  · rintro ⟨v, hword, rfl⟩
    exact index?_of_denotes (word?_eq_some.mp hword) v.isLt

/-! ## Indices are exact -/

/-- **Indices are exact up to the largest word.** An index is the number that
the digits of its text denote, if that is at most the largest number of 64
bits; so the texts of an index are its printed digits with any number of zeros
before them. All other texts have none: the empty one, those with another
character than digits, and those of larger numbers. And an index can be
gathered in a word, with no more than a check for overflow at each digit. -/
theorem index?_exact (x : String) :
    (∀ n, index? x = some n ↔ Denotes x n ∧ n ≤ 2 ^ 64 - 1) ∧
    (∀ n, index? x = some n ↔
      (∃ k, x = String.ofList (List.replicate k '0') ++ toString n) ∧ n ≤ 2 ^ 64 - 1) ∧
    (index? x = none ↔
      x = "" ∨ (∃ c ∈ x.toList, c.isDigit = false) ∨
        2 ^ 64 - 1 < Nat.ofDigits 10 (digits x)) ∧
    index? x = (word? x).map BitVec.toNat := by
  have hsome (n : Nat) : index? x = some n ↔ Denotes x n ∧ n ≤ 2 ^ 64 - 1 :=
    ⟨fun h => ⟨denotes_of_index? h, Nat.le_of_lt_succ (index?_lt h)⟩,
      fun ⟨h, hle⟩ => index?_of_denotes h (Nat.lt_succ_of_le hle)⟩
  refine ⟨hsome, fun n => ?_, index?_eq_none, index?_eq_word? x⟩
  rw [hsome, denotes_iff_zeros]

/-- Zeros before the largest word, the number after it, a number that would be
five if words went around, and texts that are no whole numbers. -/
theorem index?_exact_largest :
    index? "00018446744073709551615" = some (2 ^ 64 - 1) ∧
      index? "18446744073709551616" = none ∧
      (18446744073709551621#64).toNat = 5 ∧ index? "18446744073709551621" = none ∧
      index? "1.0" = none ∧ index? "true" = none ∧ index? "x1" = none ∧ index? "" = none := by
  have hlarge (x : String) (h : 2 ^ 64 - 1 < Nat.ofDigits 10 (digits x)) : index? x = none :=
    (index?_exact x).2.2.1.mpr (.inr (.inr h))
  have hother (x : String) (c : Char) (hc : c ∈ x.toList) (h : c.isDigit = false) :
      index? x = none :=
    (index?_exact x).2.2.1.mpr (.inr (.inl ⟨c, hc, h⟩))
  refine ⟨((index?_exact _).2.1 _).mpr ⟨⟨3, by decide +kernel⟩, Nat.le_refl _⟩,
    hlarge _ (by simp [digits, Nat.ofDigits]), rfl, hlarge _ (by simp [digits, Nat.ofDigits]),
    hother _ '.' (by simp) rfl, hother _ 't' (by simp) rfl, hother _ 'x' (by simp) rfl,
    (index?_exact _).2.2.1.mpr (.inl rfl)⟩

end MapleCompiler.Literal
