import Mathlib.Data.List.Basic
import MapleCompiler.Cpp.Line
import MapleCompiler.Token.Scan

/-!
# Braces and indentation

Code is *balanced* if no brace is closed before it is opened, and all are closed
at the end. It is *indented* if every line that is not empty begins with four
blanks for each brace around it. The brace of a namespace does not count, and a
line that begins with a right brace stands outside of the block that it closes.

Both are properties of a text, wherever it comes from: `Braces` reads one
character after another and knows which braces are open. Generated code is a
list of lines, and there it is enough to look at one line after the other.
`Line.Fits` says that a line may stand where some braces are open, and which
ones it leaves open; lines that fit each other are balanced and indented code
(`Nested.wellNested`).
-/

namespace MapleCompiler.Cpp

/-! ## Reading a text -/

/-- What an open brace belongs to. -/
inductive Brace
  /-- A block, which is indented. -/
  | block
  /-- A namespace, which is not. -/
  | space
deriving DecidableEq

/-- **The braces that are open** somewhere in a text, the innermost one first,
and what the line has up to there. -/
structure Braces where
  opened : List Brace
  line : List Char

namespace Braces

/-- Before a text. -/
def start : Braces := ⟨[], []⟩

/-- The word before the name of a namespace. -/
def spaceWord : List Char := "namespace ".toList

/-- Whether a left brace after this belongs to a namespace. -/
def isSpaceHead (line : List Char) : Bool :=
  spaceWord.isPrefixOf line && (line.drop spaceWord.length).dropWhile isWordChar == [' ']

/-- What is open after one more character. -/
def next (s : Braces) (c : Char) : Braces :=
  if c = '\n' then ⟨s.opened, []⟩
  else if c = '\x7b' then
    ⟨(if isSpaceHead s.line then .space else .block) :: s.opened, s.line ++ [c]⟩
  else if c = '\x7d' then ⟨s.opened.tail, s.line ++ [c]⟩
  else ⟨s.opened, s.line ++ [c]⟩

/-- **What is open after some text.** -/
def after (s : Braces) (cs : List Char) : Braces := cs.foldl next s

/-- **How deep a line is**, if it stands here: the number of blocks around it,
without the one that it closes first. -/
def depthOf (s : Braces) (line : List Char) : Nat :=
  s.opened.count .block -
    if (line.dropWhile (· == ' ')).head? = some '\x7d' ∧ s.opened.head? = some .block then 1 else 0

end Braces

/-- **Code that closes the braces it opens**, and no others. -/
structure Balanced (code : String) : Prop where
  /-- Up to any place, no more are closed than were opened. -/
  count_le : ∀ read, read <+: code.toList → read.count '\x7d' ≤ read.count '\x7b'
  /-- At the end, none is open. -/
  count_eq : code.toList.count '\x7d' = code.toList.count '\x7b'

/-- **Every line begins with four blanks for each level of its depth**, unless
there is nothing on it. -/
def Indented (code : String) : Prop :=
  ∀ before line rest, code.toList = before ++ (line ++ rest) →
    (before = [] ∨ before.getLast? = some '\n') → (rest = [] ∨ rest.head? = some '\n') →
    '\n' ∉ line → line ≠ [] →
    (line.takeWhile (· == ' ')).length = 4 * (Braces.start.after before).depthOf line

/-- Code whose blocks can be seen from its braces and from its indentation. -/
structure WellNested (code : String) : Prop where
  balanced : Balanced code
  indented : Indented code

namespace Braces

variable {s s' s'' : Braces} {cs ds l : List Char} {o o' : List Brace}

theorem after_append (s : Braces) (cs ds : List Char) :
    s.after (cs ++ ds) = (s.after cs).after ds := List.foldl_append

theorem head_of_isSpaceHead (h : isSpaceHead l = true) : l.head? = some 'n' := by
  obtain ⟨rest, rfl⟩ := List.isPrefixOf_iff_prefix.mp (Bool.and_eq_true_iff.mp h).1
  rfl

/-- A word has no brace in it, and no line feed either. -/
theorem plain_of_isWordChar {c : Char} (h : isWordChar c = true) :
    c ≠ '\n' ∧ c ≠ '\x7b' ∧ c ≠ '\x7d' := by
  refine ⟨?_, ?_, ?_⟩
  all_goals
    rintro rfl
    cases h

theorem isSpaceHead_word {word : List Char} (hword : ∀ c ∈ word, isWordChar c = true) :
    isSpaceHead (spaceWord ++ (word ++ [' '])) = true := by
  have hblank : [' '].dropWhile isWordChar = [' '] := by decide
  unfold isSpaceHead
  rw [List.drop_left, List.dropWhile_append_of_pos hword, hblank, Bool.and_eq_true_iff]
  exact ⟨List.isPrefixOf_iff_prefix.mpr (List.prefix_append _ _), rfl⟩

/-- **A text is read without closing more than is open.** -/
inductive Takes : Braces → List Char → Braces → Prop
  | nil (s : Braces) : Takes s [] s
  | cons {s s' : Braces} {c : Char} {cs : List Char} (hopen : c = '\x7d' → s.opened ≠ [])
      (h : Takes (s.next c) cs s') : Takes s (c :: cs) s'

namespace Takes

theorem append (h : Takes s cs s') (h' : Takes s' ds s'') : Takes s (cs ++ ds) s'' := by
  induction h with
  | nil => exact h'
  | cons hopen _ ih => exact .cons hopen (ih h')

theorem after_eq (h : Takes s cs s') : s.after cs = s' := by
  induction h with
  | nil => rfl
  | cons _ _ ih => exact ih

theorem of_append (h : Takes s (cs ++ ds) s') : Takes s cs (s.after cs) := by
  induction cs generalizing s with
  | nil => exact .nil s
  | cons c cs ih =>
    cases h with
    | cons hopen h => exact .cons hopen (ih h)

theorem length_next {c : Char} (hopen : c = '\x7d' → s.opened ≠ []) :
    s.opened.length + [c].count '\x7b' = (s.next c).opened.length + [c].count '\x7d' := by
  unfold next
  by_cases hfeed : c = '\n'
  · subst hfeed
    rfl
  by_cases hleft : c = '\x7b'
  · subst hleft
    rfl
  by_cases hright : c = '\x7d'
  · obtain ⟨b, o, ho⟩ := List.exists_cons_of_ne_nil (hopen hright)
    subst hright
    rw [ho]
    rfl
  · rw [if_neg hfeed, if_neg hleft, if_neg hright, List.count_singleton, List.count_singleton]
    simp [hleft, hright]

/-- **What is open is what was opened and not closed.** By induction on the
characters; it needs that none closes more than is open, since otherwise a
brace would be closed that was not counted. -/
theorem length_opened (h : Takes s cs s') :
    s.opened.length + cs.count '\x7b' = s'.opened.length + cs.count '\x7d' := by
  induction h with
  | nil => rfl
  | @cons s s' c cs hopen _ ih =>
    have hstep := length_next hopen
    rw [← List.singleton_append, List.count_append, List.count_append]
    omega

/-- A text that ends with nothing open is balanced. Each part that it begins
with is taken too, so up to any place no more is closed than was opened. -/
theorem balanced {code : String} (h : Takes start code.toList ⟨[], l⟩) : Balanced code := by
  refine ⟨fun read hread => ?_, ?_⟩
  · obtain ⟨rest, hrest⟩ := hread
    rw [← hrest] at h
    have hcounts := h.of_append.length_opened
    rw [show start.opened.length = 0 from rfl] at hcounts
    omega
  · have hcounts := h.length_opened
    rw [show start.opened.length = 0 from rfl, List.length_nil] at hcounts
    omega

end Takes

end Braces

open Braces

/-! ## Texts inside of a line -/

/-- **What a character of a line does to the open braces**, when they all
belong to blocks. A line has no line feed inside. -/
def matchBrace? (o : List Brace) (c : Char) : Option (List Brace) :=
  if c = '\n' then none
  else if c = '\x7b' then some (.block :: o)
  else if c = '\x7d' then
    match o with
    | [] => none
    | _ :: o => some o
  else some o

/-- **The braces of a text** take those in `o` to those in `o'`. -/
def Matches (o : List Brace) (x : String) (o' : List Brace) : Prop :=
  x.toList.foldlM matchBrace? o = some o'

section Text

variable {o o₁ o' o'' : List Brace} {l cs : List Char} {x y : String}

theorem Matches.append (h : Matches o x o') (h' : Matches o' y o'') : Matches o (x ++ y) o'' := by
  unfold Matches at h ⊢
  rw [String.toList_append, List.foldlM_append, h]
  exact h'

/-- A character that does not end the line is read as it is matched. Here no
namespace begins, so a brace that is opened belongs to a block. -/
theorem next_of_matchBrace? {c : Char} (h : matchBrace? o c = some o₁)
    (hhead : isSpaceHead l = false) :
    c ≠ '\n' ∧ (c = '\x7d' → o ≠ []) ∧ next ⟨o, l⟩ c = ⟨o₁, l ++ [c]⟩ := by
  unfold matchBrace? at h
  by_cases hfeed : c = '\n'
  · rw [if_pos hfeed] at h
    cases h
  rw [if_neg hfeed] at h
  refine ⟨hfeed, ?_⟩
  rw [next, if_neg hfeed]
  by_cases hleft : c = '\x7b'
  · rw [if_pos hleft] at h ⊢
    obtain rfl := Option.some.inj h
    refine ⟨fun hright => absurd (hleft.symm.trans hright) (by decide), ?_⟩
    rw [hhead]
    rfl
  rw [if_neg hleft] at h ⊢
  by_cases hright : c = '\x7d'
  · rw [if_pos hright] at h ⊢
    cases o with
    | nil => cases h
    | cons b o =>
      obtain rfl := Option.some.inj h
      exact ⟨fun _ => List.cons_ne_nil b o, rfl⟩
  · rw [if_neg hright] at h ⊢
    obtain rfl := Option.some.inj h
    exact ⟨fun h => absurd h hright, rfl⟩

/-- **A line that does not begin like a namespace** is read as it is
matched. -/
theorem takes_of_foldlM (h : cs.foldlM matchBrace? o = some o')
    (hline : (l ++ cs).head? ≠ some 'n') : Takes ⟨o, l⟩ cs ⟨o', l ++ cs⟩ ∧ '\n' ∉ cs := by
  induction cs generalizing o l with
  | nil =>
    obtain rfl := Option.some.inj h
    rw [List.append_nil]
    exact ⟨.nil _, List.not_mem_nil⟩
  | cons c cs ih =>
    have hhead : isSpaceHead l = false := by
      refine Bool.eq_false_iff.mpr fun hhead => hline ?_
      rw [List.head?_append, head_of_isSpaceHead hhead]
      rfl
    rw [List.foldlM_cons] at h
    obtain ⟨o₁, hc, hcs⟩ := Option.bind_eq_some_iff.mp h
    obtain ⟨hfeed, hopen, hnext⟩ := next_of_matchBrace? hc hhead
    rw [List.append_cons] at hline ⊢
    obtain ⟨htakes, hmem⟩ := ih hcs hline
    rw [← hnext] at htakes
    exact ⟨.cons hopen htakes, List.not_mem_cons_of_ne_of_not_mem hfeed.symm hmem⟩

/-- A text without braces leaves open what is open, and only adds its
characters to the line. -/
theorem takes_of_forall (h : ∀ c ∈ cs, c ≠ '\n' ∧ c ≠ '\x7b' ∧ c ≠ '\x7d') :
    Takes ⟨o, l⟩ cs ⟨o, l ++ cs⟩ := by
  induction cs generalizing l with
  | nil =>
    rw [List.append_nil]
    exact .nil _
  | cons c cs ih =>
    obtain ⟨⟨hfeed, hleft, hright⟩, hcs⟩ := List.forall_mem_cons.mp h
    have hnext : next ⟨o, l⟩ c = ⟨o, l ++ [c]⟩ := by
      rw [next, if_neg hfeed, if_neg hleft, if_neg hright]
    rw [List.append_cons]
    refine .cons (fun hc => absurd hc hright) ?_
    rw [hnext]
    exact ih hcs

/-- The head of a namespace leaves its brace open, as one of a namespace and
not of a block. The name is a word, so it has no brace that would be counted
too. -/
theorem takes_space {word : List Char} (hword : ∀ c ∈ word, isWordChar c = true)
    (o : List Brace) :
    Takes ⟨o, []⟩ (spaceWord ++ (word ++ [' ']) ++ ['\x7b'])
        ⟨.space :: o, spaceWord ++ (word ++ [' ']) ++ ['\x7b']⟩ ∧
      '\n' ∉ spaceWord ++ (word ++ [' ']) ++ ['\x7b'] := by
  have hhead := isSpaceHead_word hword
  have hplain : ∀ c ∈ spaceWord ++ (word ++ [' ']), c ≠ '\n' ∧ c ≠ '\x7b' ∧ c ≠ '\x7d' := by
    have hspace : ∀ c ∈ spaceWord, c ≠ '\n' ∧ c ≠ '\x7b' ∧ c ≠ '\x7d' := by
      unfold spaceWord
      simp
    have hblank : ∀ c ∈ [' '], c ≠ '\n' ∧ c ≠ '\x7b' ∧ c ≠ '\x7d' := by simp
    have hname := fun c hc => plain_of_isWordChar (hword c hc)
    exact List.forall_mem_append.mpr ⟨hspace, List.forall_mem_append.mpr ⟨hname, hblank⟩⟩
  generalize spaceWord ++ (word ++ [' ']) = head at hhead hplain ⊢
  constructor
  · have hnext : next ⟨o, head⟩ '\x7b' = ⟨.space :: o, head ++ ['\x7b']⟩ := by
      simp [next, hhead]
    have hbrace : Takes ⟨o, head⟩ ['\x7b'] ⟨.space :: o, head ++ ['\x7b']⟩ := by
      rw [← hnext]
      exact .cons nofun (.nil _)
    exact (takes_of_forall hplain).append hbrace
  · rw [List.mem_append, not_or]
    exact ⟨fun hmem => (hplain _ hmem).1 rfl, by decide⟩

end Text

/-! ## One line after another -/

variable {o o' o'' : List Brace}

namespace Line

/-- A line without the line feed at its end. -/
def chars (line : Line) : List Char := (indentation line.depth).toList ++ line.text.toList

theorem toList_indentation (depth : Nat) :
    (indentation depth).toList = List.replicate (4 * depth) ' ' := by
  induction depth with
  | zero => rfl
  | succ depth ih =>
    have hlevel : "    ".toList = List.replicate 4 ' ' := by decide
    rw [indentation, String.toList_append, ih, hlevel, List.replicate_append_replicate,
      Nat.mul_succ, Nat.add_comm]

theorem matches_indentation (depth : Nat) (o : List Brace) : Matches o (indentation depth) o := by
  induction depth with
  | zero => rfl
  | succ depth ih =>
    have hlevel : Matches o "    " o := rfl
    exact hlevel.append ih

theorem toList_render (line : Line) : line.render.toList = line.chars ++ ['\n'] := by
  rw [render, String.toList_append, String.toList_append]
  rfl

/-- **A line may stand where the braces in `o` are open**, and leaves those in
`o'` open. -/
structure Fits (line : Line) (o o' : List Brace) : Prop where
  takes : Takes ⟨o, []⟩ line.chars ⟨o', line.chars⟩
  single : '\n' ∉ line.chars
  indented : line.chars ≠ [] →
    (line.chars.takeWhile (· == ' ')).length = 4 * depthOf ⟨o, []⟩ line.chars

/-- At the end of a line the next one begins, with the braces that the line
left open. -/
theorem Fits.takes_lineFeed {line : Line} (h : line.Fits o o') :
    Takes ⟨o, []⟩ (line.chars ++ ['\n']) ⟨o', []⟩ :=
  h.takes.append (.cons nofun (.nil _))

/-- An empty line fits everywhere: it has no characters, so nothing is asked
of its indentation. -/
theorem fits_blank (o : List Brace) : blank.Fits o o where
  takes := .nil _
  single := List.not_mem_nil
  indented hne := absurd rfl hne

section Text

variable {depth : Nat} {text : String} {c : Char} {cs : List Char}
  (htext : text.toList = c :: cs) (hblank : c ≠ ' ')

include htext hblank

/-- A line is as deep as its braces say if its depth is. A line that begins
with a closing brace is counted without the block that it closes. -/
theorem fits (hfeed : '\n' ∉ text.toList)
    (htakes : Takes ⟨o, []⟩ (chars ⟨depth, text⟩) ⟨o', chars ⟨depth, text⟩⟩)
    (hdepth : o.count .block = depth + if c = '\x7d' ∧ o.head? = some .block then 1 else 0) :
    Fits ⟨depth, text⟩ o o' := by
  have hblanks : ∀ c ∈ List.replicate (4 * depth) ' ', (c == ' ') = true := fun c hc =>
    beq_iff_eq.mpr (List.eq_of_mem_replicate hc)
  have hc : (c == ' ') = false := beq_eq_false_iff_ne.mpr hblank
  have hchars : chars ⟨depth, text⟩ = List.replicate (4 * depth) ' ' ++ c :: cs := by
    rw [chars, toList_indentation, htext]
  refine ⟨htakes, ?_, fun _ => ?_⟩
  · rw [chars, toList_indentation, List.mem_append, not_or]
    exact ⟨fun hmem => absurd (List.eq_of_mem_replicate hmem) (by decide), hfeed⟩
  · have htake : ((chars ⟨depth, text⟩).takeWhile (· == ' ')).length = 4 * depth := by
      rw [hchars, List.takeWhile_append_of_pos hblanks, List.takeWhile_cons, hc, List.length_append,
        List.length_replicate]
      rfl
    have hdrop : ((chars ⟨depth, text⟩).dropWhile (· == ' ')).head? = some c := by
      rw [hchars, List.dropWhile_append_of_pos hblanks, List.dropWhile_cons, hc]
      rfl
    rw [htake, depthOf, hdrop, hdepth]
    simp

/-- **A line with braces of blocks** fits where they match. At the margin it
must not begin as the head of a namespace does, whose brace would be of the
other sort. -/
theorem fits_of_matches (hspace : depth = 0 → c ≠ 'n') (h : Matches o text o')
    (hdepth : o.count .block = depth + if c = '\x7d' ∧ o.head? = some .block then 1 else 0) :
    Fits ⟨depth, text⟩ o o' := by
  -- the first character is a blank, or that of the text
  have hhead : (chars ⟨depth, text⟩).head? ≠ some 'n' := by
    rw [chars, toList_indentation, htext]
    cases depth with
    | zero => simpa using hspace rfl
    | succ depth =>
      rw [Nat.mul_succ, List.replicate_succ]
      exact fun h => absurd (Option.some.inj h) (by decide)
  have hchars := (matches_indentation depth o).append h
  unfold Matches at hchars
  rw [String.toList_append] at hchars
  obtain ⟨htakes, hfeed⟩ := takes_of_foldlM (l := []) hchars hhead
  exact fits htext hblank (fun hmem => hfeed (List.mem_append_right _ hmem)) htakes hdepth

end Text

/-- **The line that opens a namespace** fits outside of all blocks, and what
is in the namespace is not indented. -/
theorem fits_space {space : String} (hword : ∀ c ∈ space.toList, isWordChar c = true)
    (hdepth : o.count .block = 0) :
    (flush ("namespace " ++ space ++ " \x7b")).Fits o (.space :: o) := by
  have htext : ("namespace " ++ space ++ " \x7b").toList =
      spaceWord ++ (space.toList ++ [' ']) ++ ['\x7b'] := by
    rw [String.toList_append, String.toList_append, List.append_assoc, List.append_assoc,
      List.append_assoc]
    rfl
  have hchars : chars ⟨0, "namespace " ++ space ++ " \x7b"⟩ =
      spaceWord ++ (space.toList ++ [' ']) ++ ['\x7b'] := htext
  obtain ⟨htakes, hfeed⟩ := takes_space hword o
  refine fits (c := 'n') htext (by decide) ?_ ?_ hdepth
  · rw [htext]
    exact hfeed
  · rw [hchars]
    exact htakes

end Line

theorem toList_render_cons (line : Line) (lines : List Line) :
    (render (line :: lines)).toList = line.chars ++ '\n' :: (render lines).toList := by
  unfold render
  rw [List.map_cons, String.join_cons, String.toList_append, line.toList_render, List.append_assoc]
  rfl

theorem takeWhile_line {line rest : List Char} (hfeed : '\n' ∉ line)
    (hrest : rest = [] ∨ rest.head? = some '\n') :
    (line ++ rest).takeWhile (· != '\n') = line := by
  have hline : ∀ c ∈ line, (c != '\n') = true := by
    intro c hc
    rw [bne_iff_ne]
    rintro rfl
    exact hfeed hc
  have hstop : rest.takeWhile (· != '\n') = [] := by
    obtain rfl | hhead := hrest
    · rfl
    · obtain ⟨rest, rfl⟩ := List.head?_eq_some_iff.mp hhead
      rfl
  rw [List.takeWhile_append_of_pos hline, hstop, List.append_nil]

/-- What ends with a line feed has passed the first line: the line has none
inside, so the first one in the text is the one after it. -/
theorem exists_passed {line rest before rest' : List Char} (hfeed : '\n' ∉ line)
    (h : line ++ '\n' :: rest = before ++ rest') (hlast : before.getLast? = some '\n') :
    ∃ passed, before = line ++ ['\n'] ++ passed ∧ rest = passed ++ rest' ∧
      (passed = [] ∨ passed.getLast? = some '\n') := by
  obtain ⟨between, rfl, hsplit⟩ | ⟨between, rfl, -⟩ := List.append_eq_append_iff.mp h
  · cases between with
    | nil =>
      rw [List.append_nil] at hlast
      exact absurd (List.mem_of_getLast? hlast) hfeed
    | cons c passed =>
      obtain ⟨rfl, hrest⟩ := List.cons.inj hsplit
      rw [List.append_cons] at hlast ⊢
      refine ⟨passed, rfl, hrest, ?_⟩
      rw [List.getLast?_append] at hlast
      cases hend : passed.getLast? with
      | none => exact .inl (List.getLast?_eq_none_iff.mp hend)
      | some c =>
        rw [hend] at hlast
        exact .inr hlast
  · exact absurd (List.mem_append_left between (List.mem_of_getLast? hlast)) hfeed

/-- **Each line fits after the one before it**, from the braces in `o` to
those in `o'`. -/
inductive Nested : List Brace → List Line → List Brace → Prop
  | nil (o : List Brace) : Nested o [] o
  | cons {o o₁ o' : List Brace} {line : Line} {lines : List Line} (hline : line.Fits o o₁)
      (h : Nested o₁ lines o') : Nested o (line :: lines) o'

namespace Nested

variable {lines lines' : List Line}

theorem single {line : Line} (h : line.Fits o o') : Nested o [line] o' := .cons h (.nil o')

theorem append (h : Nested o lines o') (h' : Nested o' lines' o'') :
    Nested o (lines ++ lines') o'' := by
  induction h with
  | nil => exact h'
  | cons hline _ ih => exact .cons hline (ih h')

theorem of_forall (h : ∀ line ∈ lines, line.Fits o o) : Nested o lines o := by
  induction lines with
  | nil => exact .nil o
  | cons line lines ih =>
    obtain ⟨hline, hlines⟩ := List.forall_mem_cons.mp h
    exact .cons hline (ih hlines)

theorem flatMap {α : Type} {xs : List α} {f : α → List Line} (h : ∀ x ∈ xs, Nested o (f x) o) :
    Nested o (xs.flatMap f) o := by
  induction xs with
  | nil => exact .nil o
  | cons x xs ih =>
    obtain ⟨hx, hxs⟩ := List.forall_mem_cons.mp h
    rw [List.flatMap_cons]
    exact hx.append (ih hxs)

theorem takes (h : Nested o lines o') : Takes ⟨o, []⟩ (render lines).toList ⟨o', []⟩ := by
  induction h with
  | nil o => exact .nil _
  | cons hline _ ih =>
    rw [toList_render_cons, List.append_cons]
    exact hline.takes_lineFeed.append ih

/-- Every line of the text is one of the lines, with the braces open that it
fits. -/
theorem indented_from (h : Nested o lines o') {before line rest : List Char}
    (hcode : (render lines).toList = before ++ (line ++ rest))
    (hbefore : before = [] ∨ before.getLast? = some '\n')
    (hrest : rest = [] ∨ rest.head? = some '\n') (hfeed : '\n' ∉ line) (hne : line ≠ []) :
    (line.takeWhile (· == ' ')).length = 4 * (Braces.after ⟨o, []⟩ before).depthOf line := by
  induction h generalizing before with
  | nil o =>
    have hnil := List.append_eq_nil_iff.mp hcode.symm
    exact absurd (List.append_eq_nil_iff.mp hnil.2).1 hne
  | @cons o o₁ o' first lines hfirst _ ih =>
    rw [toList_render_cons] at hcode
    obtain rfl | hlast := hbefore
    -- the text begins with the line, which is the first one
    · have hline : first.chars = line := by
        have htake := congrArg (List.takeWhile (· != '\n')) hcode
        rwa [takeWhile_line hfirst.single (.inr rfl), List.nil_append,
          takeWhile_line hfeed hrest] at htake
      subst hline
      exact hfirst.indented hne
    -- the first line and its line feed are passed
    · obtain ⟨passed, rfl, hlines, hpassed⟩ := exists_passed hfirst.single hcode hlast
      rw [after_append, hfirst.takes_lineFeed.after_eq]
      exact ih hlines hpassed

/-- **Lines that fit each other are balanced and indented code**, if nothing
is open before the first of them and nothing after the last. -/
theorem wellNested (h : Nested [] lines []) : WellNested (render lines) :=
  ⟨h.takes.balanced, fun _ _ _ => h.indented_from⟩

end Nested

end MapleCompiler.Cpp
