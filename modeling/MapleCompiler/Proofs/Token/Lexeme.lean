import Mathlib.Data.List.Find
import MapleCompiler.Token.Scan

/-!
# Lexemes by themselves

A text is a *lexeme* of a dialect if reading it gives one piece that is all of
it (`Lexeme`). A lexeme is read in the same way before a blank and at the end of
a text: a longest match never ends inside it, and it never goes on into a blank.
So the lexemes that a text is read into can be written down again with blanks
between them, and are read back (`Token.scanFrom_lexeme`).

The proof follows the classes of pieces: numbers, library names, words and
marks. Each of them is a run of characters of some class, perhaps followed by a
second part, and a run ends before any character that is not of its class.
-/

namespace MapleCompiler

/-- The text ends here, or a blank follows. -/
def Stops (rest : List Char) : Prop := ∀ c ∈ rest.head?, isBlank c = true

theorem stops_nil : Stops [] := nofun

theorem stops_cons {c : Char} (h : isBlank c = true) (rest : List Char) : Stops (c :: rest) := by
  rintro _ ⟨⟩
  exact h

theorem Stops.not_class {p : Char → Bool} {rest : List Char} (h : Stops rest)
    (hp : ∀ c, isBlank c = true → p c = false) : ∀ c ∈ rest.head?, p c = false :=
  fun c hc => hp c (h c hc)

namespace Piece

/-! ## Runs of characters -/

variable {p : Char → Bool}

/-- A text begins with a run, which ends before a character of another class
or at the end. The run may be empty. -/
theorem exists_run (p : Char → Bool) (cs : List Char) :
    ∃ run rest, cs = run ++ rest ∧ (∀ c ∈ run, p c = true) ∧ ∀ c ∈ rest.head?, p c = false := by
  refine ⟨cs.takeWhile p, cs.dropWhile p, List.takeWhile_append_dropWhile.symm,
    List.all_eq_true.mp List.all_takeWhile, ?_⟩
  intro c hc
  have := List.head?_dropWhile_not p cs
  rw [hc] at this
  simpa using this

/-- The length of a run that is followed by another character, or by
nothing. -/
theorem runLength_append {run rest : List Char} (hrun : ∀ c ∈ run, p c = true)
    (hrest : ∀ c ∈ rest.head?, p c = false) : runLength p (run ++ rest) = run.length := by
  unfold runLength
  rw [List.takeWhile_append_of_pos hrun, List.length_append]
  cases rest with
  | nil => rfl
  | cons c rest => rw [List.takeWhile_cons_of_neg (by simp [hrest c rfl])]; rfl

theorem isBlank_cases {c : Char} (h : isBlank c = true) :
    c = ' ' ∨ c = '\t' ∨ c = '\r' ∨ c = '\n' := by
  simpa [isBlank, or_assoc] using h

theorem isDigit_of_isBlank (c : Char) (h : isBlank c = true) : c.isDigit = false := by
  obtain rfl | rfl | rfl | rfl := isBlank_cases h <;> rfl

theorem isWordChar_of_isBlank (c : Char) (h : isBlank c = true) : isWordChar c = false := by
  obtain rfl | rfl | rfl | rfl := isBlank_cases h <;> rfl

/-! ## The classes of pieces

Each lemma says that a piece is read in the same way if the text stops after
it. -/

variable {cs rest : List Char} {kind : TokenKind} {more : Nat}

/-- A number by what follows its whole part. -/
def numberBefore (whole : Nat) : List Char → Piece
  | '.' :: c :: rest =>
    if c.isDigit then lexeme .number (whole + 2 + runLength Char.isDigit rest)
    else lexeme .number whole
  | _ => lexeme .number whole

theorem number_append {whole after : List Char} (hwhole : ∀ c ∈ whole, c.isDigit = true)
    (hafter : ∀ c ∈ after.head?, c.isDigit = false) :
    number (whole ++ after) = numberBefore whole.length after := by
  unfold number
  dsimp only
  rw [runLength_append hwhole hafter, List.drop_left]
  rfl

theorem number_whole {whole : List Char} (hwhole : ∀ c ∈ whole, c.isDigit = true)
    (hrest : Stops rest) : number (whole ++ rest) = .lexeme .number whole.length := by
  rw [number_append hwhole (hrest.not_class isDigit_of_isBlank)]
  unfold numberBefore
  split
  · exact absurd (hrest '.' rfl) (by decide)
  · rfl

/-- A number that stops after its fraction is its digits, the point and the
digits behind it. -/
theorem number_fraction {whole fraction : List Char} {c : Char}
    (hwhole : ∀ c ∈ whole, c.isDigit = true) (hc : c.isDigit = true)
    (hfraction : ∀ c ∈ fraction, c.isDigit = true) (hrest : Stops rest) :
    number (whole ++ '.' :: c :: (fraction ++ rest)) =
      .lexeme .number (whole.length + 2 + fraction.length) := by
  rw [number_append hwhole (by rintro _ ⟨⟩; rfl), numberBefore, if_pos hc,
    runLength_append hfraction (hrest.not_class isDigit_of_isBlank)]

theorem number_stops (h : number cs = .lexeme kind more) (hrest : Stops rest) :
    number (cs.take more ++ rest) = .lexeme kind more ∧ more ≤ cs.length := by
  obtain ⟨whole, after, rfl, hwhole, hafter⟩ := exists_run Char.isDigit cs
  have hshort : number (whole ++ after) = .lexeme .number whole.length →
      number ((whole ++ after).take more ++ rest) = .lexeme kind more ∧
        more ≤ (whole ++ after).length := by
    intro heq
    obtain ⟨rfl, rfl⟩ := Piece.lexeme.inj (heq.symm.trans h)
    rw [List.take_left]
    exact ⟨number_whole hwhole hrest, by simp⟩
  by_cases hpoint : ∃ c r, after = '.' :: c :: r ∧ c.isDigit = true
  · obtain ⟨c, r, rfl, hc⟩ := hpoint
    obtain ⟨fraction, r, rfl, hfraction, hr⟩ := exists_run Char.isDigit r
    rw [number_append hwhole hafter, numberBefore, if_pos hc, runLength_append hfraction hr] at h
    obtain ⟨rfl, rfl⟩ := Piece.lexeme.inj h
    have htake : (whole ++ '.' :: c :: (fraction ++ r)).take (whole.length + 2 + fraction.length) =
        whole ++ '.' :: c :: fraction := by
      have : whole ++ '.' :: c :: (fraction ++ r) = (whole ++ '.' :: c :: fraction) ++ r := by simp
      rw [this]
      exact List.take_left' (by simp; omega)
    rw [htake, List.append_assoc, List.cons_append, List.cons_append]
    exact ⟨number_fraction hwhole hc hfraction hrest, by simp; omega⟩
  · refine hshort ?_
    rw [number_append hwhole hafter]
    unfold numberBefore
    split
    · next c r => rw [if_neg fun hc => hpoint ⟨c, r, rfl, hc⟩]
    · rfl

/-- A library name by what follows its word. -/
def libraryBefore (word : Nat) : List Char → Piece
  | ':' :: ':' :: _ => lexeme .qualifier (word + 2)
  | _ => lexeme .libraryName word

theorem libraryName_append {word after : List Char} (hword : ∀ c ∈ word, isWordChar c = true)
    (hafter : ∀ c ∈ after.head?, isWordChar c = false) :
    libraryName (word ++ after) =
      if word.length = 0 then illegal else libraryBefore word.length after := by
  unfold libraryName
  dsimp only
  rw [runLength_append hword hafter, List.drop_left]
  rfl

theorem libraryName_stops (h : libraryName cs = .lexeme kind more) (hrest : Stops rest) :
    libraryName (cs.take more ++ rest) = .lexeme kind more ∧ more ≤ cs.length := by
  obtain ⟨word, after, rfl, hword, hafter⟩ := exists_run isWordChar cs
  rw [libraryName_append hword hafter] at h
  split at h
  · cases h
  next hne =>
  unfold libraryBefore at h
  split at h
  · next after =>
    obtain ⟨rfl, rfl⟩ := Piece.lexeme.inj h
    have htake : (word ++ ':' :: ':' :: after).take (word.length + 2) = word ++ [':', ':'] := by
      have : word ++ ':' :: ':' :: after = (word ++ [':', ':']) ++ after := by simp
      rw [this]
      exact List.take_left' (by simp)
    rw [htake, List.append_assoc, List.cons_append, List.cons_append, List.nil_append,
      libraryName_append hword (by rintro _ ⟨⟩; rfl), if_neg hne]
    exact ⟨rfl, by simp⟩
  · obtain ⟨rfl, rfl⟩ := Piece.lexeme.inj h
    rw [List.take_left, libraryName_append hword (hrest.not_class isWordChar_of_isBlank),
      if_neg hne]
    refine ⟨?_, by simp⟩
    unfold libraryBefore
    split
    · exact absurd (hrest ':' rfl) (by decide)
    · rfl

theorem word_stops {d : Dialect} {c : Char} (h : word d c cs = .lexeme kind more)
    (hrest : Stops rest) :
    word d c (cs.take more ++ rest) = .lexeme kind more ∧ more ≤ cs.length := by
  obtain ⟨run, after, rfl, hrun, hafter⟩ := exists_run isWordChar cs
  unfold word at h ⊢
  dsimp only at h ⊢
  rw [runLength_append hrun hafter, List.take_left] at h
  obtain ⟨rfl, rfl⟩ := Piece.lexeme.inj h
  rw [List.take_left, runLength_append hrun (hrest.not_class isWordChar_of_isBlank), List.take_left]
  exact ⟨rfl, by simp⟩

/-- What has no blank inside begins a text exactly if it begins what stands
before a blank. -/
theorem isPrefixOf_append_blank {text : List Char} {b : Char} (ht : b ∉ text)
    (before after : List Char) :
    text.isPrefixOf (before ++ b :: after) = text.isPrefixOf before := by
  induction text generalizing before with
  | nil => simp
  | cons c text ih =>
    obtain ⟨hc, ht⟩ := not_or.mp (mt List.mem_cons.mpr ht)
    cases before with
    | nil =>
      show (c == b && _) = false
      rw [beq_eq_false_iff_ne.mpr (Ne.symm hc), Bool.false_and]
    | cons c' before => rw [List.cons_append, List.isPrefixOf, List.isPrefixOf, ih ht]

/-- A mark is found again if the text stops after it: no mark has a blank
inside, so a longer one that would match could not reach past the end. -/
theorem find?_mark {d : Dialect} {m : List Char × TokenKind} (hm : m ∈ d.marks)
    (hrest : Stops rest) : d.marks.find? (·.1.isPrefixOf (m.1 ++ rest)) = some m := by
  have hself : d.marks.find? (·.1.isPrefixOf m.1) = some m := by
    revert m
    cases d <;> decide
  cases rest with
  | nil => rwa [List.append_nil]
  | cons b rest =>
    have hblank : ∀ m' ∈ d.marks, b ∉ m'.1 := by
      have hmarks : ∀ m' ∈ d.marks, m'.1.any isBlank = false := by cases d <;> decide
      intro m' hm' hb
      exact List.any_eq_false.mp (hmarks m' hm') b hb (hrest b rfl)
    rw [← hself]
    refine List.find?_congr fun m' hm' => ?_
    exact isPrefixOf_append_blank (hblank m' hm') m.1 rest

theorem mark_stops {d : Dialect} {c : Char} (h : mark d c cs = .lexeme kind more)
    (hrest : Stops rest) :
    mark d c (cs.take more ++ rest) = .lexeme kind more ∧ more ≤ cs.length := by
  unfold mark at h
  split at h
  · next text kind' hfind =>
    obtain ⟨rfl, rfl⟩ := Piece.lexeme.inj h
    have hmem := List.mem_of_find?_eq_some hfind
    have hbegins := List.find?_some hfind
    obtain ⟨after, hafter⟩ := List.isPrefixOf_iff_prefix.mp hbegins
    have hne : text ≠ [] := by
      have : ∀ m ∈ d.marks, m.1 ≠ [] := by cases d <;> decide
      exact this _ hmem
    obtain ⟨c', text, rfl⟩ := List.exists_cons_of_ne_nil hne
    rw [List.cons_append] at hafter
    obtain ⟨rfl, rfl⟩ := List.cons.inj hafter
    rw [List.length_cons, Nat.add_sub_cancel, List.take_left]
    unfold mark
    rw [← List.cons_append, find?_mark hmem hrest]
    exact ⟨by simp, by simp⟩
  · cases h

/-- No comment begins where none did: the second character is the one that it
was, or a blank. -/
theorem not_startsComment_stops {d : Dialect} {c : Char} (h : ¬startsComment d c cs = true)
    (hrest : Stops rest) : ¬startsComment d c (cs.take more ++ rest) = true := by
  have hstops {after : List Char} (hafter : Stops after) : ¬startsComment d c after = true := by
    intro hc
    unfold startsComment at hc
    have hslash : after.head? = some '/' := by simpa using (Bool.and_eq_true_iff.mp hc).2
    exact absurd (hafter '/' hslash) (by decide)
  cases cs with
  | nil => rw [List.take_nil, List.nil_append]; exact hstops hrest
  | cons c' cs =>
    cases more with
    | zero => exact hstops hrest
    | succ more => exact h

/-- **A lexeme is read in the same way if the text stops after it.** By cases
on what its first character begins: what follows can only make a lexeme
longer, and here nothing does. -/
theorem read_stops {d : Dialect} {c : Char} (h : read d c cs = .lexeme kind more)
    (hrest : Stops rest) :
    read d c (cs.take more ++ rest) = .lexeme kind more ∧ more ≤ cs.length := by
  unfold read at h ⊢
  split at h
  · cases h
  next hblank =>
  split at h
  · cases h
  next hcomment =>
  rw [if_neg hblank]
  rw [if_neg (not_startsComment_stops hcomment hrest)]
  split at h
  · next hdigit => rw [if_pos hdigit]; exact number_stops h hrest
  next hdigit =>
  rw [if_neg hdigit]
  split at h
  · next hlibrary => rw [if_pos hlibrary]; exact libraryName_stops h hrest
  next hlibrary =>
  rw [if_neg hlibrary]
  split at h
  · next hword => rw [if_pos hword]; exact word_stops h hrest
  · next hword => rw [if_neg hword]; exact mark_stops h hrest

end Piece

/-! ## Lexemes -/

/-- **A text that is one lexeme** of a kind, by itself. -/
def Lexeme (d : Dialect) (kind : TokenKind) (x : String) : Prop :=
  ∃ c cs, x.toList = c :: cs ∧ Piece.read d c cs = .lexeme kind cs.length

namespace Lexeme

variable {d : Dialect} {kind kind' : TokenKind} {x : String}

/-- A text is a lexeme of one kind only, since the scanner reads it in one
way. -/
theorem unique (h : Lexeme d kind x) (h' : Lexeme d kind' x) : kind = kind' := by
  obtain ⟨c, cs, hx, hread⟩ := h
  obtain ⟨c', cs', hx', hread'⟩ := h'
  obtain ⟨rfl, rfl⟩ := List.cons.inj (hx.symm.trans hx')
  exact (Piece.lexeme.inj (hread.symm.trans hread')).1

/-- What is read from a text is a lexeme by itself, also if it was followed by
more. -/
theorem ofRead {c : Char} {cs : List Char} {more : Nat}
    (h : Piece.read d c cs = .lexeme kind more) :
    Lexeme d kind (String.ofList (c :: cs.take more)) := by
  obtain ⟨hread, hle⟩ := Piece.read_stops h stops_nil
  refine ⟨c, cs.take more, String.toList_ofList, ?_⟩
  rw [List.append_nil] at hread
  rw [hread, List.length_take_of_le hle]

/-- A lexeme is read before a blank and at the end of a text, and all of it
is. -/
theorem read {c : Char} {cs rest : List Char} (h : Lexeme d kind x) (hx : x.toList = c :: cs)
    (hrest : Stops rest) : Piece.read d c (cs ++ rest) = .lexeme kind cs.length := by
  obtain ⟨c', cs', hx', hread⟩ := h
  obtain ⟨rfl, rfl⟩ := List.cons.inj (hx.symm.trans hx')
  have := (Piece.read_stops hread hrest).1
  rwa [List.take_length] at this

end Lexeme

/-! ## Texts of lexemes -/

namespace Token

variable {d : Dialect}

/-- The characters of a piece that was read are passed, and the place is
counted on. -/
theorem scanFrom_append (cs rest : List Char) (p : Position) :
    scanFrom d (cs ++ rest) cs.length p = scanFrom d rest 0 (p.after cs) := by
  induction cs generalizing p with
  | nil => rfl
  | cons c cs ih => exact ih (p.next c)

theorem scanFrom_blank {c : Char} (hc : isBlank c = true) (rest : List Char) (p : Position) :
    scanFrom d (c :: rest) 0 p = scanFrom d rest 0 (p.next c) := by
  rw [scanFrom, Piece.read, if_pos hc]

/-- **A lexeme is read as a token** if the text stops after it, at the place
where it stands, and scanning goes on behind it. -/
theorem scanFrom_lexeme {kind : TokenKind} {x : String} (h : Lexeme d kind x) {rest : List Char}
    (hrest : Stops rest) (p : Position) :
    scanFrom d (x.toList ++ rest) 0 p =
      (scanFrom d rest 0 (p.after x.toList)).map (⟨kind, x, p⟩ :: ·) := by
  obtain ⟨c, cs, hx, -⟩ := id h
  rw [hx, List.cons_append, scanFrom, h.read hx hrest]
  dsimp only
  have hafter : (p.next c).after cs = p.after x.toList := by rw [hx]; rfl
  rw [scanFrom_append, List.take_left, ← hx, String.ofList_toList, hafter]
  cases scanFrom d rest 0 (p.after x.toList) with
  | error e => rfl
  | ok tokens => rfl

/-- **Every token that is read is a lexeme by itself.** By the recursion of
the scanner, in which only the characters that begin a lexeme give a token. -/
theorem lexeme_of_scanFrom {cs : List Char} {skip : Nat} {p : Position} {tokens : List Token}
    (h : scanFrom d cs skip p = .ok tokens) :
    ∀ t ∈ tokens, t.kind ≠ .eof → Lexeme d t.kind t.lexeme := by
  fun_induction scanFrom d cs skip p generalizing tokens with
  | case1 skip p =>
    obtain rfl := Except.ok.inj h
    intro t ht hne
    rw [List.mem_singleton.mp ht] at hne
    exact absurd rfl hne
  | case2 c cs skip p ih => exact ih h
  | case3 c cs p more hread ih => exact ih h
  | case4 c cs p kind more hread ih =>
    cases hscan : scanFrom d cs more (p.next c) with
    | error e => rw [hscan] at h; cases h
    | ok rest =>
      rw [hscan] at h
      obtain rfl := Except.ok.inj h
      intro t ht hne
      obtain rfl | ht := List.mem_cons.mp ht
      · exact .ofRead hread
      · exact ih hscan t ht hne
  | case5 => cases h

end Token

end MapleCompiler
