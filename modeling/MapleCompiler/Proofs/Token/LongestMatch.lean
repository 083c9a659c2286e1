import MapleCompiler.Proofs.Token.Layout
import MapleCompiler.Proofs.Token.Literal

/-!
# The scanner as a longest match

A lexical grammar says which texts are tokens (`Pattern`) and nothing about how
they are found. Together with the rule that the *longest* match wins
(`Longest`) it determines what a text is read into: pass over blanks and
comments, take the longest token that begins there, and go on after it; if no
token begins there, the character that does is refused (`Lexes`).

The scanner looks at one or two characters to choose a class and then takes what
that class has. Main statement: it computes exactly what the grammar determines
(`Token.scan_eq_iff_lexes`). Two facts carry this. A text matches a pattern
exactly if the scanner takes it whole (`Pattern.lexeme`, `Lexeme.pattern`). And
what the scanner takes is at least as long as any match at the same place
(`Pattern.le_read`), since patterns that can begin with the same character are
tried together.
-/

namespace MapleCompiler

/-! ## The lexical grammar -/

/-- **The patterns of a dialect**: which texts are tokens, and of which
kind. -/
inductive Pattern (d : Dialect) : TokenKind → List Char → Prop
  /-- Digits. -/
  | digits {whole : List Char} (hne : whole ≠ []) (hwhole : ∀ c ∈ whole, c.isDigit = true) :
      Pattern d .number whole
  /-- Digits, a point and digits. -/
  | decimal {whole fraction : List Char} (hne : whole ≠ [])
      (hwhole : ∀ c ∈ whole, c.isDigit = true) (hne' : fraction ≠ [])
      (hfraction : ∀ c ∈ fraction, c.isDigit = true) :
      Pattern d .number (whole ++ '.' :: fraction)
  /-- An `@` sign before a word. -/
  | libraryName {word : List Char} (hd : d = .maple) (hne : word ≠ [])
      (hword : ∀ c ∈ word, isWordChar c = true) : Pattern d .libraryName ('@' :: word)
  /-- The same with two colons after it. -/
  | qualifier {word : List Char} (hd : d = .maple) (hne : word ≠ [])
      (hword : ∀ c ∈ word, isWordChar c = true) :
      Pattern d .qualifier ('@' :: (word ++ [':', ':']))
  /-- A word that begins with no digit: reserved, or an identifier. -/
  | word {c : Char} {cs : List Char} (hc : isWordStart c = true)
      (hcs : ∀ c ∈ cs, isWordChar c = true) :
      Pattern d ((d.keyword? (String.ofList (c :: cs))).getD .identifier) (c :: cs)
  /-- A mark of the dialect. -/
  | mark {kind : TokenKind} {text : List Char} (h : (text, kind) ∈ d.marks) : Pattern d kind text

/-- **The longest match**: a pattern matches `text` at the front of `cs`, and
none matches more. -/
structure Longest (d : Dialect) (kind : TokenKind) (text cs : List Char) : Prop where
  pattern : Pattern d kind text
  begins : text <+: cs
  longest : ∀ kind' text', Pattern d kind' text' → text' <+: cs → text'.length ≤ text.length

/-- **What is passed over** before `rest`: blanks and, in the full dialect,
comments. A comment runs up to a line feed or to the end of the text. -/
inductive Skips (d : Dialect) : List Char → List Char → Prop
  | nil {rest : List Char} : Skips d [] rest
  | blank {c : Char} {gap rest : List Char} (hc : isBlank c = true) (h : Skips d gap rest) :
      Skips d (c :: gap) rest
  | comment {body gap rest : List Char} (hd : d = .maple) (hbody : '\n' ∉ body)
      (hend : gap ++ rest = [] ∨ ∃ after, gap ++ rest = '\n' :: after) (h : Skips d gap rest) :
      Skips d ('/' :: '/' :: (body ++ gap)) rest

/-- Nothing is to be passed over here: neither a blank nor a comment
begins. -/
def Settled (d : Dialect) (cs : List Char) : Prop :=
  (∀ c ∈ cs.head?, isBlank c = false) ∧ (d = .maple → ¬['/', '/'] <+: cs)

/-- **What a text is read into** by the grammar, from a place on: tokens up to
the end of the text, or a character that begins none. -/
inductive Lexes (d : Dialect) : List Char → Position → Except CompileError (List Token) → Prop
  /-- Nothing is left. -/
  | done {gap : List Char} {p : Position} (hgap : Skips d gap []) :
      Lexes d gap p (.ok [.eof (p.after gap)])
  /-- The longest match is the next token. -/
  | token {gap text rest : List Char} {kind : TokenKind} {p : Position}
      {result : Except CompileError (List Token)} (hgap : Skips d gap (text ++ rest))
      (hsettled : Settled d (text ++ rest)) (hlongest : Longest d kind text (text ++ rest))
      (hrest : Lexes d rest ((p.after gap).after text) result) :
      Lexes d (gap ++ (text ++ rest)) p
        (result.map (⟨kind, String.ofList text, p.after gap⟩ :: ·))
  /-- A character is left, and no pattern matches where it stands. -/
  | illegal {gap rest : List Char} {c : Char} {p : Position} (hgap : Skips d gap (c :: rest))
      (hsettled : Settled d (c :: rest))
      (hnone : ∀ kind text, Pattern d kind text → ¬text <+: c :: rest) :
      Lexes d (gap ++ c :: rest) p
        (.error (.atSpan (.illegalCharacter c) ((p.after gap).span c.utf8Size)))

/-! ## Which class a character begins -/

theorem Dialect.ne_nil_of_mem_marks {d : Dialect} {m : List Char × TokenKind} (h : m ∈ d.marks) :
    m.1 ≠ [] := by
  have hmarks : ∀ m ∈ d.marks, m.1 ≠ [] := by cases d <;> decide
  exact hmarks m h

namespace Piece

variable {d : Dialect} {c : Char} {cs : List Char}

theorem not_startsComment (hc : c ≠ '/') (cs : List Char) : ¬startsComment d c cs = true := by
  simp [startsComment, hc]

theorem startsComment_iff : startsComment d c cs = true ↔ d = .maple ∧ ['/', '/'] <+: c :: cs := by
  unfold startsComment
  cases d with
  | legacy => simp [Dialect.supports]
  | maple =>
    rw [List.cons_prefix_cons]
    cases cs with
    | nil => simp
    | cons c' cs =>
      rw [List.cons_prefix_cons]
      simp [Dialect.supports, eq_comm (a := '/')]

theorem isDigit_of_isWordStart (h : isWordStart c = true) : c.isDigit = false := by
  unfold isWordStart Char.isAlpha Char.isUpper Char.isLower at h
  unfold Char.isDigit
  simp only [Bool.or_eq_true, beq_iff_eq, Bool.and_eq_true, decide_eq_true_eq] at h
  simp only [Bool.and_eq_false_iff, decide_eq_false_iff_not]
  obtain rfl | h := h
  · decide
  · simp only [UInt32.le_iff_toNat_le] at h ⊢
    have hnine : '9'.val.toNat = 57 := rfl
    have hupper : 'A'.val.toNat = 65 := rfl
    have hlower : 'a'.val.toNat = 97 := rfl
    omega

theorem read_digit (hc : c.isDigit = true) (cs : List Char) : read d c cs = number cs := by
  have hblank : ¬isBlank c = true := by
    intro hb
    rw [isDigit_of_isBlank c hb] at hc
    cases hc
  have hslash : c ≠ '/' := by
    rintro rfl
    cases hc
  rw [read, if_neg hblank, if_neg (not_startsComment hslash cs), if_pos hc]

/-- An `@` sign begins a library name in the full dialect. -/
theorem read_at (cs : List Char) : read .maple '@' cs = libraryName cs := by
  rw [read, if_neg (by decide), if_neg (not_startsComment (by decide) cs), if_neg (by decide),
    if_pos (by decide)]

/-- A letter or an underscore begins a word, which is a reserved one or a
name. -/
theorem read_wordStart (hc : isWordStart c = true) (cs : List Char) :
    read d c cs = word d c cs := by
  have hother {c' : Char} (h : isWordStart c' = false) : c ≠ c' := by
    rintro rfl
    rw [hc] at h
    cases h
  have hblank : ¬isBlank c = true := by
    intro hb
    obtain rfl | rfl | rfl | rfl := isBlank_cases hb <;> cases hc
  have hat : ¬(c == '@' && d.supports .libraries) = true := by
    simp [hother (show isWordStart '@' = false from rfl)]
  rw [read, if_neg hblank, if_neg (not_startsComment (hother rfl) cs),
    if_neg (by simp [isDigit_of_isWordStart hc]), if_neg hat, if_pos hc]

/-- The first character of a mark begins nothing else than marks and
comments. -/
theorem read_mark {text : List Char} {kind : TokenKind} (h : (c :: text, kind) ∈ d.marks)
    (hcomment : ¬startsComment d c cs = true) : read d c cs = mark d c cs := by
  have hheads : (d.marks.all fun m => m.1.head?.all fun c =>
      !isBlank c && !c.isDigit && c != '@' && !isWordStart c) = true := by cases d <;> decide
  have hhead := List.all_eq_true.mp hheads _ h
  simp only [List.head?_cons, Option.all_some, Bool.and_eq_true, Bool.not_eq_true', bne_iff_ne]
    at hhead
  obtain ⟨⟨⟨hblank, hdigit⟩, hat⟩, hword⟩ := hhead
  rw [read, if_neg (by simp [hblank]), if_neg hcomment, if_neg (by simp [hdigit]),
    if_neg (by simp [hat]), if_neg (by simp [hword])]

/-! ## How much each class takes -/

theorem le_runLength {p : Char → Bool} {run : List Char} (hrun : ∀ c ∈ run, p c = true)
    (rest : List Char) : run.length ≤ runLength p (run ++ rest) := by
  unfold runLength
  rw [List.takeWhile_append_of_pos hrun, List.length_append]
  exact Nat.le_add_right _ _

theorem le_number (cs : List Char) :
    ∃ more, number cs = .lexeme .number more ∧ runLength Char.isDigit cs ≤ more := by
  unfold number
  dsimp only
  split
  · split
    · exact ⟨_, rfl, by omega⟩
    · exact ⟨_, rfl, Nat.le_refl _⟩
  · exact ⟨_, rfl, Nat.le_refl _⟩

theorem le_libraryName (h : runLength isWordChar cs ≠ 0) :
    ∃ kind more, libraryName cs = .lexeme kind more ∧ runLength isWordChar cs ≤ more := by
  unfold libraryName
  dsimp only
  rw [if_neg h]
  split
  · exact ⟨_, _, rfl, Nat.le_add_right _ _⟩
  · exact ⟨_, _, rfl, Nat.le_refl _⟩

/-- Longer marks come first in the table, so the first match is the longest.
Whatever mark stands here, the one that is found is not shorter. -/
theorem le_mark {text : List Char} {kind : TokenKind} (h : (text, kind) ∈ d.marks)
    (hbegins : text <+: c :: cs) :
    ∃ kind' more, mark d c cs = .lexeme kind' more ∧ text.length ≤ more + 1 := by
  have hsorted : d.marks.Pairwise fun m m' => m'.1.length ≤ m.1.length := by cases d <;> decide
  unfold mark
  cases hfind : d.marks.find? (·.1.isPrefixOf (c :: cs)) with
  | none =>
    have hnone := List.find?_eq_none.mp hfind _ h
    exact absurd (List.isPrefixOf_iff_prefix.mpr hbegins) hnone
  | some m =>
    obtain ⟨-, before, after, htable, hbefore⟩ := List.find?_eq_some_iff_append.mp hfind
    have hle : text.length ≤ m.1.length := by
      rw [htable] at h hsorted
      obtain hmem | hmem := List.mem_append.mp h
      · have hnot := hbefore _ hmem
        rw [List.isPrefixOf_iff_prefix.mpr hbegins] at hnot
        cases hnot
      · obtain rfl | hmem := List.mem_cons.mp hmem
        · exact Nat.le_refl _
        · exact List.rel_of_pairwise_cons (List.pairwise_append.mp hsorted).2.1 hmem
    exact ⟨m.2, m.1.length - 1, rfl, by omega⟩

end Piece

/-! ## Patterns and what the scanner takes -/

namespace Pattern

variable {d : Dialect} {kind : TokenKind} {text : List Char}

/-- **The scanner takes at least as much as a pattern matches**, where no
comment begins. By cases on the pattern; its first character decides what the
scanner reads. -/
theorem le_read (h : Pattern d kind text) {c : Char} {cs : List Char} (hbegins : text <+: c :: cs)
    (hcomment : ¬Piece.startsComment d c cs = true) :
    ∃ kind' more, Piece.read d c cs = .lexeme kind' more ∧ text.length ≤ more + 1 := by
  -- every pattern has a first character, and that is `c`
  obtain ⟨rest, hrest⟩ := hbegins
  cases h with
  | digits hne hwhole =>
    obtain ⟨c', whole, rfl⟩ := List.exists_cons_of_ne_nil hne
    rw [List.cons_append] at hrest
    obtain ⟨rfl, rfl⟩ := List.cons.inj hrest
    obtain ⟨hc, hwhole⟩ := List.forall_mem_cons.mp hwhole
    obtain ⟨more, hnumber, hle⟩ := Piece.le_number (whole ++ rest)
    have hrun := Piece.le_runLength hwhole rest
    rw [Piece.read_digit hc, hnumber]
    exact ⟨_, _, rfl, by rw [List.length_cons]; omega⟩
  | @decimal whole fraction hne hwhole hne' hfraction =>
    obtain ⟨c', whole, rfl⟩ := List.exists_cons_of_ne_nil hne
    obtain ⟨f, fraction, rfl⟩ := List.exists_cons_of_ne_nil hne'
    rw [List.cons_append, List.cons_append, List.append_assoc] at hrest
    obtain ⟨rfl, rfl⟩ := List.cons.inj hrest
    obtain ⟨hc, hwhole⟩ := List.forall_mem_cons.mp hwhole
    obtain ⟨hf, hfraction⟩ := List.forall_mem_cons.mp hfraction
    have hrun := Piece.le_runLength hfraction rest
    rw [Piece.read_digit hc, List.cons_append, List.cons_append,
      Piece.number_append hwhole (by rintro _ ⟨⟩; rfl), Piece.numberBefore, if_pos hf]
    refine ⟨_, _, rfl, ?_⟩
    simp only [List.length_append, List.length_cons]
    omega
  | @libraryName word hd hne hword =>
    obtain rfl := hd
    rw [List.cons_append] at hrest
    obtain ⟨rfl, rfl⟩ := List.cons.inj hrest
    have hrun := Piece.le_runLength hword rest
    have hpos := List.length_pos_iff.mpr hne
    obtain ⟨kind', more, hlibrary, hle⟩ :=
      Piece.le_libraryName (show Piece.runLength isWordChar (word ++ rest) ≠ 0 by omega)
    rw [Piece.read_at, hlibrary]
    exact ⟨_, _, rfl, by rw [List.length_cons]; omega⟩
  | @qualifier word hd hne hword =>
    obtain rfl := hd
    rw [List.cons_append, List.append_assoc] at hrest
    obtain ⟨rfl, rfl⟩ := List.cons.inj hrest
    have hpos := List.length_pos_iff.mpr hne
    rw [Piece.read_at, Piece.libraryName_append hword (by rintro _ ⟨⟩; rfl), if_neg (by omega)]
    refine ⟨_, _, rfl, ?_⟩
    simp only [List.length_append, List.length_cons, List.length_nil]
    omega
  | word hc hcs =>
    rw [List.cons_append] at hrest
    obtain ⟨rfl, rfl⟩ := List.cons.inj hrest
    have hrun := Piece.le_runLength hcs rest
    rw [Piece.read_wordStart hc]
    exact ⟨_, _, rfl, by rw [List.length_cons]; omega⟩
  | mark h =>
    obtain ⟨c', text, rfl⟩ := List.exists_cons_of_ne_nil (Dialect.ne_nil_of_mem_marks h)
    rw [List.cons_append] at hrest
    obtain ⟨rfl, rfl⟩ := List.cons.inj hrest
    rw [Piece.read_mark h hcomment]
    exact Piece.le_mark h ⟨rest, rfl⟩

/-- What a pattern matches is a lexeme by itself: as a whole text it is taken
whole. -/
theorem lexeme (h : Pattern d kind text) : Lexeme d kind (String.ofList text) := by
  cases h with
  | digits hne hwhole =>
    obtain ⟨c, whole, rfl⟩ := List.exists_cons_of_ne_nil hne
    exact .digits hwhole
  | @decimal whole fraction hne hwhole hne' hfraction =>
    obtain ⟨c, whole, rfl⟩ := List.exists_cons_of_ne_nil hne
    obtain ⟨f, fraction, rfl⟩ := List.exists_cons_of_ne_nil hne'
    obtain ⟨hc, hwhole⟩ := List.forall_mem_cons.mp hwhole
    obtain ⟨hf, hfraction⟩ := List.forall_mem_cons.mp hfraction
    refine ⟨c, whole ++ '.' :: f :: fraction, String.toList_ofList, ?_⟩
    have hnumber := Piece.number_fraction hwhole hf hfraction stops_nil
    rw [List.append_nil] at hnumber
    rw [Piece.read_digit hc, hnumber]
    simp only [List.length_append, List.length_cons, Piece.lexeme.injEq, true_and]
    omega
  | @libraryName word hd hne hword =>
    obtain rfl := hd
    refine ⟨'@', word, String.toList_ofList, ?_⟩
    have hlibrary : Piece.libraryName (word ++ []) =
        if word.length = 0 then .illegal else Piece.libraryBefore word.length [] :=
      Piece.libraryName_append hword nofun
    rw [List.append_nil, if_neg fun h => hne (List.eq_nil_of_length_eq_zero h)] at hlibrary
    rw [Piece.read_at, hlibrary]
    rfl
  | @qualifier word hd hne hword =>
    obtain rfl := hd
    refine ⟨'@', word ++ [':', ':'], String.toList_ofList, ?_⟩
    rw [Piece.read_at, Piece.libraryName_append hword (by rintro _ ⟨⟩; rfl),
      if_neg fun h => hne (List.eq_nil_of_length_eq_zero h), List.length_append]
    rfl
  | @word c cs hc hcs =>
    refine ⟨c, cs, String.toList_ofList, ?_⟩
    have hrun : Piece.runLength isWordChar (cs ++ []) = cs.length :=
      Piece.runLength_append hcs nofun
    rw [List.append_nil] at hrun
    rw [Piece.read_wordStart hc, Piece.word, hrun, List.take_length]
  | mark h =>
    have hmarks : ∀ m ∈ d.marks, Lexeme d m.2 (String.ofList m.1) := by
      cases d <;> decide +kernel
    exact hmarks _ h

end Pattern

/-- What the scanner takes whole matches a pattern, by the class it was taken
for. So patterns and lexemes are the same. -/
theorem Lexeme.pattern {d : Dialect} {kind : TokenKind} {text : List Char}
    (h : Lexeme d kind (String.ofList text)) : Pattern d kind text := by
  obtain ⟨c, cs, htext, hread⟩ := h
  rw [String.toList_ofList] at htext
  subst htext
  unfold Piece.read at hread
  split at hread
  · cases hread
  split at hread
  · cases hread
  split at hread
  · next hc =>
    obtain rfl := Piece.kind_of_number hread
    obtain ⟨whole, hwhole, rfl | ⟨fraction, hne, hfraction, rfl⟩⟩ := Piece.number_eq_lexeme hread
    · exact .digits (List.cons_ne_nil _ _) (List.forall_mem_cons.mpr ⟨hc, hwhole⟩)
    · exact .decimal (List.cons_ne_nil c whole) (List.forall_mem_cons.mpr ⟨hc, hwhole⟩) hne
        hfraction
  split at hread
  · next hat =>
    obtain ⟨hc, hd⟩ := Bool.and_eq_true_iff.mp hat
    have hmaple : d = .maple := by
      cases d with
      | maple => rfl
      | legacy => cases hd
    rw [beq_iff_eq.mp hc]
    obtain ⟨word, hne, hword, ⟨rfl, rfl⟩ | ⟨rfl, rfl⟩⟩ := Piece.libraryName_eq_lexeme hread
    · exact .libraryName hmaple hne hword
    · exact .qualifier hmaple hne hword
  split at hread
  · next hc =>
    obtain ⟨hkind, hlength⟩ := Piece.lexeme.inj hread
    have hrun : cs.takeWhile isWordChar = cs := (List.takeWhile_prefix _).eq_of_length hlength
    rw [hlength, List.take_length] at hkind
    rw [← hkind]
    refine .word hc ?_
    rw [← hrun]
    exact List.all_eq_true.mp List.all_takeWhile
  · unfold Piece.mark at hread
    split at hread
    · next mark kind' hfind =>
      obtain ⟨rfl, hlength⟩ := Piece.lexeme.inj hread
      -- the mark begins the text and is as long as it
      have hmem := List.mem_of_find?_eq_some hfind
      have hfound : mark.isPrefixOf (c :: cs) = true := by simpa using List.find?_some hfind
      have hbegins := List.isPrefixOf_iff_prefix.mp hfound
      have hpos : 0 < mark.length := List.length_pos_iff.mpr (Dialect.ne_nil_of_mem_marks hmem)
      have heq : mark = c :: cs := hbegins.eq_of_length (by rw [List.length_cons]; omega)
      rw [← heq]
      exact .mark hmem
    · cases hread

theorem Settled.not_startsComment {d : Dialect} {c : Char} {cs : List Char}
    (h : Settled d (c :: cs)) : ¬Piece.startsComment d c cs = true := by
  intro hcomment
  obtain ⟨hd, hslashes⟩ := Piece.startsComment_iff.mp hcomment
  exact h.2 hd hslashes

namespace Longest

variable {d : Dialect} {c : Char} {cs : List Char} {kind : TokenKind}

/-- **What the scanner takes is the longest match.** It matches a pattern, and
no pattern matches more of the text. -/
theorem of_read {more : Nat} (h : Piece.read d c cs = .lexeme kind more)
    (hcomment : ¬Piece.startsComment d c cs = true) :
    Longest d kind (c :: cs.take more) (c :: cs) where
  pattern := (Lexeme.ofRead h).pattern
  begins := List.cons_prefix_cons.mpr ⟨rfl, List.take_prefix more cs⟩
  longest kind' text' hpattern hbegins := by
    obtain ⟨_, _, hread, hle⟩ := hpattern.le_read hbegins hcomment
    obtain ⟨-, rfl⟩ := Piece.lexeme.inj (h.symm.trans hread)
    have hmore := (Piece.read_stops h stops_nil).2
    rw [List.length_cons, List.length_take_of_le hmore]
    exact hle

/-- **The scanner takes the longest match**, if there is a match at all. The
kind that it gives is the kind of the match. -/
theorem read {text : List Char} (h : Longest d kind (c :: text) (c :: cs))
    (hcomment : ¬Piece.startsComment d c cs = true) :
    Piece.read d c cs = .lexeme kind text.length := by
  obtain ⟨kind', more, hread, hle⟩ := h.pattern.le_read h.begins hcomment
  have htaken := of_read hread hcomment
  have hmore := (Piece.read_stops hread stops_nil).2
  have hge := h.longest _ _ htaken.pattern htaken.begins
  rw [List.length_cons, List.length_cons, List.length_take_of_le hmore] at hge
  rw [List.length_cons] at hle
  -- two matches of one length at one place are the same text
  have htext : c :: text = c :: cs.take more := by
    refine (List.prefix_of_prefix_length_le h.begins htaken.begins ?_).eq_of_length ?_
    all_goals
      rw [List.length_cons, List.length_cons, List.length_take_of_le hmore]
      omega
  have hkind : kind = kind' := by
    have hother := htaken.pattern
    rw [← htext] at hother
    exact h.pattern.lexeme.unique hother.lexeme
  obtain rfl : text.length = more := by omega
  rw [hkind]
  exact hread

end Longest

/-! ## Whole texts -/

section Scanning

variable {d : Dialect} {p : Position}

/-- Where the scanner finds no gap, nothing is to be passed over: no blank
stands here, and no comment begins. -/
theorem settled_of_read {c : Char} {cs : List Char} (h : ∀ more, Piece.read d c cs ≠ .gap more) :
    Settled d (c :: cs) := by
  unfold Piece.read at h
  constructor
  · rintro _ ⟨⟩
    by_contra hblank
    rw [Bool.not_eq_false] at hblank
    exact h _ (if_pos hblank)
  · intro hd hslashes
    have hcomment := Piece.startsComment_iff.mpr ⟨hd, hslashes⟩
    by_cases hblank : isBlank c = true
    · exact h _ (if_pos hblank)
    · rw [if_neg hblank, if_pos hcomment] at h
      exact h _ rfl

/-- The scanner passes over gaps, and the place is counted on over all of
their characters. -/
theorem scanFrom_skips {gap rest : List Char} (h : Skips d gap rest) (p : Position) :
    Token.scanFrom d (gap ++ rest) 0 p = Token.scanFrom d rest 0 (p.after gap) := by
  induction h generalizing p with
  | nil => rfl
  | @blank c gap rest hc _ ih =>
    rw [List.cons_append, Token.scanFrom_blank hc, ih]
    rfl
  | @comment body gap rest hd hbody hend _ ih =>
    have hnofeed : ∀ c ∈ '/' :: body, (c != '\n') = true := by
      intro c hc
      rw [bne_iff_ne]
      rintro rfl
      obtain hslash | hc := List.mem_cons.mp hc
      · cases hslash
      · exact hbody hc
    have hstop : ∀ c ∈ (gap ++ rest).head?, (c != '\n') = false := by
      intro c hc
      obtain hnil | ⟨after, hfeed⟩ := hend
      · rw [hnil] at hc
        cases hc
      · rw [hfeed] at hc
        cases hc
        rfl
    have hcomment : Piece.startsComment d '/' ('/' :: body ++ (gap ++ rest)) = true :=
      Piece.startsComment_iff.mpr ⟨hd, ⟨body ++ (gap ++ rest), rfl⟩⟩
    have hread : Piece.read d '/' ('/' :: body ++ (gap ++ rest)) = .gap ('/' :: body).length := by
      rw [Piece.read, if_neg (by decide), if_pos hcomment, Piece.runLength_append hnofeed hstop]
    have hsplit : '/' :: '/' :: (body ++ gap) ++ rest = '/' :: ('/' :: body ++ (gap ++ rest)) := by
      simp only [List.cons_append, List.append_assoc]
    rw [hsplit, Token.scanFrom, hread]
    dsimp only
    rw [Token.scanFrom_append, ih]
    simp only [Position.after_cons, Position.after_append]

/-- One more blank or comment in front of a text. The gap before its first
lexeme is then longer by it. -/
theorem Lexes.after_gap {c : Char} {passed rest : List Char}
    {result : Except CompileError (List Token)}
    (hread : Piece.read d c (passed ++ rest) = .gap passed.length)
    (h : Lexes d rest (p.after (c :: passed)) result) :
    Lexes d (c :: (passed ++ rest)) p result := by
  have hskip {gap after : List Char} (hrest : rest = gap ++ after) (hgap : Skips d gap after) :
      Skips d (c :: passed ++ gap) after := by
    obtain ⟨hblank, rfl⟩ | ⟨hd, rfl, ⟨body, rfl⟩, hline, hend⟩ := Piece.gap_cases hread
    · exact .blank hblank hgap
    · rw [hrest] at hend
      exact .comment hd (fun hmem => hline (List.mem_cons_of_mem _ hmem)) hend hgap
  have hplace (gap : List Char) :
      (p.after (c :: passed)).after gap = p.after (c :: passed ++ gap) :=
    (Position.after_append _ _ _).symm
  cases h with
  | done hgap =>
    rw [hplace]
    exact .done (hskip (List.append_nil _).symm hgap)
  | @token gap text rest _ _ _ hgap hsettled hlongest hrest =>
    rw [hplace] at hrest ⊢
    have hlexes := Lexes.token (hskip rfl hgap) hsettled hlongest hrest
    rwa [List.append_assoc] at hlexes
  | @illegal gap rest _ _ hgap hsettled hnone =>
    rw [hplace]
    have hlexes := Lexes.illegal (p := p) (hskip rfl hgap) hsettled hnone
    rwa [List.append_assoc] at hlexes

/-- **The scanner reads a text as the grammar does.** By induction on the
pieces of the text. -/
theorem lexes_scanFrom (d : Dialect) (cs : List Char) (p : Position) :
    Lexes d cs p (Token.scanFrom d cs 0 p) := by
  refine Token.scanFrom_induction (motive := Lexes d) ?_ ?_ ?_ ?_ cs p
  · intro p
    exact .done .nil
  · intro p c passed rest result hread ih
    exact ih.after_gap hread
  · intro p c passed rest kind result hread ih
    have hsettled : Settled d (c :: (passed ++ rest)) := settled_of_read (by simp [hread])
    have hlongest := Longest.of_read hread hsettled.not_startsComment
    rw [List.take_left] at hlongest
    exact @Lexes.token d [] (c :: passed) _ _ _ _ .nil hsettled hlongest ih
  · intro p c cs hread
    have hsettled : Settled d (c :: cs) := settled_of_read (by simp [hread])
    refine @Lexes.illegal d [] _ _ _ .nil hsettled fun kind text hpattern hbegins => ?_
    obtain ⟨_, _, hlexeme, -⟩ := hpattern.le_read hbegins hsettled.not_startsComment
    cases hread.symm.trans hlexeme

/-- **The grammar determines the result**, and it is what the scanner gives.
By induction on the derivation; each of its steps is one of the scanner. -/
theorem Lexes.eq_scanFrom {cs : List Char} {result : Except CompileError (List Token)}
    (h : Lexes d cs p result) : Token.scanFrom d cs 0 p = result := by
  induction h with
  | done hgap =>
    have hskips := scanFrom_skips hgap
    simp only [List.append_nil] at hskips
    rw [hskips]
    rfl
  | @token gap text rest kind p result hgap hsettled hlongest _ ih =>
    have hne : text ≠ [] := by
      rintro rfl
      obtain ⟨_, _, hx, -⟩ := hlongest.pattern.lexeme
      cases hx
    obtain ⟨c, text, rfl⟩ := List.exists_cons_of_ne_nil hne
    have hread := hlongest.read hsettled.not_startsComment
    rw [scanFrom_skips hgap, List.cons_append, Token.scanFrom]
    change Piece.read d c (text ++ rest) = _ at hread
    rw [hread]
    dsimp only
    rw [Token.scanFrom_append, List.take_left]
    change Token.scanFrom d rest 0 (((p.after gap).next c).after text) = result at ih
    rw [ih]
    cases result <;> rfl
  | @illegal gap rest c p hgap hsettled hnone =>
    have hread : Piece.read d c rest = .illegal := by
      cases hread : Piece.read d c rest with
      | gap more =>
        obtain ⟨hblank, -⟩ | ⟨hcomment, -⟩ := Piece.read_eq_gap hread
        · rw [hsettled.1 c rfl] at hblank
          cases hblank
        · exact absurd hcomment hsettled.not_startsComment
      | lexeme kind more =>
        have hlongest := Longest.of_read hread hsettled.not_startsComment
        exact absurd hlongest.begins (hnone _ _ hlongest.pattern)
      | illegal => rfl
    rw [scanFrom_skips hgap, Token.scanFrom, hread]

end Scanning

/-- **The scanner is the longest-match reader of the lexical grammar**: for
every text, it gives the tokens or the refused character that the grammar
determines, and nothing else. -/
theorem Token.scan_eq_iff_lexes (d : Dialect) (source : String)
    (result : Except CompileError (List Token)) :
    scan d source = result ↔ Lexes d source.toList .start result := by
  constructor
  · rintro rfl
    exact lexes_scanFrom d source.toList .start
  · exact Lexes.eq_scanFrom

end MapleCompiler
