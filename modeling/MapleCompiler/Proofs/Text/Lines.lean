import Mathlib.Data.List.Induction
import MapleCompiler.Proofs.Text.Bytes
import MapleCompiler.Text.Lines

/-!
# The line that holds a place

A place in a text has a line number, which counts line feeds, and messages show
the line of that number. Lines are found in another way: the text is split at its
line feeds, a carriage return is taken off the end of each stretch but the last,
and an empty last stretch is dropped. This module says that the line shown is the
one that holds the place.

`Lines.Holds` says what that means without any splitting: the line is what stands
around the place between two line breaks. Main statement: `Lines.exists_get?`, for
a place where some characters stand that are no part of a line break.
-/

namespace MapleCompiler.Lines

/-- A line begins after these characters. -/
def Begins (front : List Char) : Prop := front = [] ∨ front.getLast? = some '\n'

/-- **A line ends before these characters**: the end of the text, or a line
break. A carriage return before a line feed is a part of the break and not of
the line. -/
def Ends (line back : List Char) : Prop :=
  back = [] ∨ (∃ after, back = '\r' :: '\n' :: after) ∨
    (∃ after, back = '\n' :: after) ∧ line.getLast? ≠ some '\r'

/-- **The line of a text that holds a place**, given by the number of bytes
before it. -/
def Holds (text : String) (offset : Nat) (line : String) : Prop :=
  ∃ front head tail back, text.toList = front ++ (head ++ tail) ++ back ∧
    line.toList = head ++ tail ∧ offset = (encode (front ++ head)).length ∧
    Begins front ∧ '\n' ∉ head ++ tail ∧ Ends (head ++ tail) back

/-! ## Splitting -/

variable {sep : Char} {line rest : List Char}

theorem splitAt_ne_nil (sep : Char) (cs : List Char) : splitAt sep cs ≠ [] := by
  cases cs with
  | nil => exact List.cons_ne_nil _ _
  | cons c cs =>
    unfold splitAt
    split
    · exact List.cons_ne_nil _ _
    · split <;> exact List.cons_ne_nil _ _

theorem splitAt_cons_of_ne {c : Char} (hc : c ≠ sep) {piece : List Char}
    {pieces : List (List Char)} (h : splitAt sep rest = piece :: pieces) :
    splitAt sep (c :: rest) = (c :: piece) :: pieces := by
  rw [splitAt, if_neg hc, h]

theorem splitAt_of_notMem (h : sep ∉ line) : splitAt sep line = [line] := by
  induction line with
  | nil => rfl
  | cons c line ih =>
    obtain ⟨hc, hline⟩ := not_or.mp (mt List.mem_cons.mpr h)
    exact splitAt_cons_of_ne (Ne.symm hc) (ih hline)

theorem splitAt_append_cons (h : sep ∉ line) (rest : List Char) :
    splitAt sep (line ++ sep :: rest) = line :: splitAt sep rest := by
  induction line with
  | nil => rw [List.nil_append, splitAt, if_pos rfl]
  | cons c line ih =>
    obtain ⟨hc, hline⟩ := not_or.mp (mt List.mem_cons.mpr h)
    exact splitAt_cons_of_ne (Ne.symm hc) (ih hline)

/-- Splitting goes on independently after an occurrence of the separator: what
stands before it is split without a look at the rest. -/
theorem splitAt_append (sep : Char) (front rest : List Char) :
    splitAt sep (front ++ sep :: rest) = splitAt sep front ++ splitAt sep rest := by
  induction front with
  | nil =>
    rw [List.nil_append, splitAt.eq_2, if_pos rfl]
    rfl
  | cons c front ih =>
    by_cases hc : c = sep
    · rw [List.cons_append, splitAt.eq_2, if_pos hc, ih, splitAt.eq_2, if_pos hc]
      rfl
    · obtain ⟨piece, pieces, hfront⟩ := List.exists_cons_of_ne_nil (splitAt_ne_nil sep front)
      rw [List.cons_append, splitAt_cons_of_ne hc (ih.trans (by rw [hfront]; rfl)),
        splitAt_cons_of_ne hc hfront]
      rfl

/-- **Splitting loses nothing**: the stretches with separators between them
are the text. By induction on its characters. -/
theorem intercalate_splitAt (sep : Char) (cs : List Char) :
    [sep].intercalate (splitAt sep cs) = cs := by
  induction cs with
  | nil => rfl
  | cons c cs ih =>
    obtain ⟨piece, pieces, hcs⟩ := List.exists_cons_of_ne_nil (splitAt_ne_nil sep cs)
    rw [hcs] at ih
    by_cases hc : c = sep
    · rw [splitAt, if_pos hc, hcs, List.intercalate_cons_cons, ih, hc]
      rfl
    · rw [splitAt_cons_of_ne hc hcs]
      cases pieces with
      | nil =>
        rw [List.intercalate_singleton] at ih ⊢
        rw [ih]
      | cons next pieces =>
        rw [List.intercalate_cons_cons] at ih ⊢
        rw [List.cons_append, List.cons_append, ih]

theorem notMem_of_mem_splitAt {cs piece : List Char} (h : piece ∈ splitAt sep cs) :
    sep ∉ piece := by
  induction cs generalizing piece with
  | nil =>
    obtain rfl := List.mem_singleton.mp h
    exact List.not_mem_nil
  | cons c cs ih =>
    by_cases hc : c = sep
    · rw [splitAt, if_pos hc] at h
      obtain rfl | h := List.mem_cons.mp h
      · exact List.not_mem_nil
      · exact ih h
    · obtain ⟨first, pieces, hcs⟩ := List.exists_cons_of_ne_nil (splitAt_ne_nil sep cs)
      rw [splitAt_cons_of_ne hc hcs] at h
      rw [hcs] at ih
      obtain rfl | h := List.mem_cons.mp h
      · exact fun hmem => (List.mem_cons.mp hmem).elim (fun heq => hc heq.symm)
          (ih List.mem_cons_self)
      · exact ih (List.mem_cons_of_mem first h)

/-- **Whole lines are split off**: as many stretches as there are line feeds.
What follows them is split by itself. -/
theorem exists_splitAt_append {front : List Char} (h : Begins front) (rest : List Char) :
    ∃ pieces, splitAt '\n' (front ++ rest) = pieces ++ splitAt '\n' rest ∧
      pieces.length = front.count '\n' := by
  induction front with
  | nil => exact ⟨[], rfl, rfl⟩
  | cons c front ih =>
    have hlast : (c :: front).getLast? = some '\n' := h.resolve_left (List.cons_ne_nil _ _)
    by_cases hfront : front = []
    · subst hfront
      obtain rfl : c = '\n' := Option.some.inj hlast
      exact ⟨[[]], by rw [List.singleton_append, splitAt, if_pos rfl]; rfl, rfl⟩
    · rw [List.getLast?_cons_of_ne_nil hfront] at hlast
      obtain ⟨pieces, hsplit, hlength⟩ := ih (.inr hlast)
      by_cases hc : c = '\n'
      · refine ⟨[] :: pieces, ?_, ?_⟩
        · rw [List.cons_append, splitAt, if_pos hc, hsplit]
          rfl
        · rw [List.length_cons, hlength, hc, List.count_cons_self]
      · -- the character belongs to the first stretch, which is there
        have hmem : '\n' ∈ front := List.mem_of_getLast? hlast
        have hpos := List.count_pos_iff.mpr hmem
        obtain ⟨piece, pieces, rfl⟩ :=
          List.exists_cons_of_length_pos (hlength.symm ▸ hpos : 0 < pieces.length)
        refine ⟨(c :: piece) :: pieces, splitAt_cons_of_ne hc hsplit, ?_⟩
        rw [List.count_cons_of_ne hc, ← hlength]
        rfl

/-! ## Lines by their number -/

theorem ofPieces_cons {piece : List Char} {pieces : List (List Char)} (h : pieces ≠ []) :
    ofPieces (piece :: pieces) = dropReturn piece :: ofPieces pieces := by
  obtain ⟨next, pieces, rfl⟩ := List.exists_cons_of_ne_nil h
  rfl

theorem ofPieces_append (pieces : List (List Char)) {more : List (List Char)} (h : more ≠ []) :
    ofPieces (pieces ++ more) = pieces.map dropReturn ++ ofPieces more := by
  induction pieces with
  | nil => rfl
  | cons piece pieces ih =>
    rw [List.cons_append, ofPieces_cons (List.append_ne_nil_of_right_ne_nil _ h), ih]
    rfl

/-- **The line with the number of a place** is the first one after the lines
before it. Numbers are those of the place, which counts line feeds. -/
theorem get?_append {text : String} {front rest : List Char} (htext : text.toList = front ++ rest)
    (h : Begins front) :
    get? text (1 + front.count '\n') =
      (ofPieces (splitAt '\n' rest)).head?.map String.ofList := by
  obtain ⟨pieces, hsplit, hlength⟩ := exists_splitAt_append h rest
  have hindex : 1 + front.count '\n' - 1 = (pieces.map dropReturn).length := by
    rw [List.length_map, hlength]
    omega
  rw [get?, if_neg (by omega), ofText, htext, hsplit, ofPieces_append _ (splitAt_ne_nil _ _),
    List.getElem?_map, hindex, List.getElem?_append_right (Nat.le_refl _), Nat.sub_self,
    List.head?_eq_getElem?]

theorem exists_stretch (cs : List Char) :
    ∃ stretch back, cs = stretch ++ back ∧ '\n' ∉ stretch ∧
      (back = [] ∨ ∃ after, back = '\n' :: after) := by
  refine ⟨cs.takeWhile (· != '\n'), cs.dropWhile (· != '\n'),
    List.takeWhile_append_dropWhile.symm, fun hmem => ?_, ?_⟩
  · have hall := List.all_eq_true.mp (List.all_takeWhile (p := (· != '\n')) (l := cs)) _ hmem
    simp at hall
  · cases hback : cs.dropWhile (· != '\n') with
    | nil => exact .inl rfl
    | cons c after =>
      have hc := List.head?_dropWhile_not (· != '\n') cs
      rw [hback] at hc
      have hfeed : c = '\n' := by simpa using hc
      exact .inr ⟨after, by rw [hfeed]⟩

theorem dropReturn_cases (stretch : List Char) :
    (∃ kept, stretch = kept ++ ['\r'] ∧ dropReturn stretch = kept) ∨
      stretch.getLast? ≠ some '\r' ∧ dropReturn stretch = stretch := by
  unfold dropReturn
  by_cases h : stretch.getLast? = some '\r'
  · obtain ⟨kept, rfl⟩ := List.getLast?_eq_some_iff.mp h
    exact .inl ⟨kept, rfl, by rw [if_pos h, List.dropLast_concat]⟩
  · exact .inr ⟨h, if_neg h⟩

/-- After a word that has no carriage return, one at the end is at the end of
what follows, so taking it off leaves the word. -/
theorem getLast?_append_word {word : List Char} (hne : word ≠ []) (hword : '\r' ∉ word)
    (head stretch : List Char) :
    (head ++ word ++ stretch).getLast? = some '\r' ↔ stretch.getLast? = some '\r' := by
  rw [List.getLast?_append]
  cases stretch.getLast? with
  | some c => rfl
  | none =>
    rw [Option.none_or, List.getLast?_append]
    cases hlast : word.getLast? with
    | none => exact absurd (List.getLast?_eq_none_iff.mp hlast) hne
    | some c =>
      have hc : c ≠ '\r' := by
        rintro rfl
        exact hword (List.mem_of_getLast? hlast)
      rw [Option.some_or]
      exact iff_of_false (fun h => hc (Option.some.inj h)) nofun

/-- **The line that is shown holds the place**, and what stands there stands
in the line. A carriage return at the end of the line is not shown, and it is
no part of the word. -/
theorem exists_get? {text : String} {front head word rest : List Char}
    (htext : text.toList = front ++ (head ++ word ++ rest)) (hfront : Begins front)
    (hhead : '\n' ∉ head) (hne : word ≠ []) (hword : '\n' ∉ word) (hreturn : '\r' ∉ word) :
    ∃ line tail, get? text (1 + front.count '\n') = some line ∧
      Holds text (encode (front ++ head)).length line ∧ line.toList = head ++ word ++ tail := by
  obtain ⟨stretch, back, rfl, hstretch, hback⟩ := exists_stretch rest
  have hfree {tail : List Char} (htail : '\n' ∉ tail) : '\n' ∉ head ++ word ++ tail := by
    simp only [List.mem_append, not_or]
    exact ⟨⟨hhead, hword⟩, htail⟩
  -- a line is what stands around the place up to the break
  have hholds {tail back : List Char} (htail : '\n' ∉ tail)
      (hends : Ends (head ++ word ++ tail) back)
      (hsplit : text.toList = front ++ (head ++ word ++ tail) ++ back) :
      Holds text (encode (front ++ head)).length (String.ofList (head ++ word ++ tail)) := by
    have hfree := hfree htail
    rw [List.append_assoc head] at hends hsplit hfree ⊢
    exact ⟨front, head, word ++ tail, back, hsplit, String.toList_ofList, rfl, hfront, hfree, hends⟩
  have hget := get?_append htext hfront
  rw [← List.append_assoc] at hget
  obtain rfl | ⟨after, rfl⟩ := hback
  · -- the last line ends with the text
    have hline : head ++ word ++ stretch ≠ [] :=
      List.append_ne_nil_of_left_ne_nil (List.append_ne_nil_of_right_ne_nil _ hne) _
    rw [List.append_nil, splitAt_of_notMem (hfree hstretch), ofPieces, if_neg hline] at hget
    refine ⟨_, stretch, hget, hholds hstretch (.inl rfl) ?_, String.toList_ofList⟩
    rw [htext, List.append_nil, List.append_nil]
  · rw [splitAt_append_cons (hfree hstretch), ofPieces_cons (splitAt_ne_nil _ _)] at hget
    obtain ⟨kept, hkept, hdrop⟩ | ⟨hlast, hdrop⟩ := dropReturn_cases (head ++ word ++ stretch)
    · -- the carriage return stands after the word
      have hend : stretch.getLast? = some '\r' :=
        (getLast?_append_word hne hreturn head stretch).mp (hkept ▸ List.getLast?_concat)
      obtain ⟨tail, rfl⟩ := List.getLast?_eq_some_iff.mp hend
      rw [← List.append_assoc] at hkept
      obtain rfl : head ++ word ++ tail = kept := List.append_inj_left' hkept rfl
      rw [hdrop] at hget
      have htail : '\n' ∉ tail := fun h => hstretch (List.mem_append_left _ h)
      refine ⟨_, tail, hget, hholds htail (.inr (.inl ⟨after, rfl⟩)) ?_, String.toList_ofList⟩
      rw [htext]
      simp only [List.append_assoc, List.singleton_append]
    · rw [hdrop] at hget
      refine ⟨_, stretch, hget, hholds hstretch (.inr (.inr ⟨⟨after, rfl⟩, hlast⟩)) ?_,
        String.toList_ofList⟩
      rw [htext]
      simp only [List.append_assoc]

end MapleCompiler.Lines
