import MapleCompiler.Diagnostic.Report
import MapleCompiler.Program.Equality
import MapleCompiler.Proofs.Library.Location
import MapleCompiler.Proofs.Text.Lines
import MapleCompiler.Proofs.Token.LongestMatch

/-!
# The caret stands under the offending text

The scanner counts columns in bytes, and a diagnostic puts that many characters
before its carets. The two counts agree for one reason: **no character of more
than one byte stands before a token on its line**. Tokens and blanks are made of
characters of one byte, and all other characters are in comments, after which a
line ends.

As an invariant of the scanner this is a disjunction (`Clear`): the line is plain
up to here, or it ends here. Each piece of a text keeps it
(`Clear.after_gap`, `PlainLine.append`), and where a token or a refused character
stands the line does not end, so it is plain (`standsAt_of_scan`). Then the line
that is shown is the one that holds the place (`Lines.exists_get?`), with the word
after as many characters as the column says.

Main statement: `caret_under_offending_text`.
-/

namespace MapleCompiler

/-! ## Characters of tokens -/

/-- A character of one byte that can be seen. -/
def IsGraphic (c : Char) : Prop := 32 < c.toNat ∧ c.toNat < 127

instance (c : Char) : Decidable (IsGraphic c) := inferInstanceAs (Decidable (_ ∧ _))

namespace IsGraphic

variable {c : Char}

theorem utf8Size_eq (h : IsGraphic c) : c.utf8Size = 1 := by
  have hsmall : c.val.toNat < 127 := h.2
  exact Char.utf8Size_eq_one_iff.mpr (UInt32.le_iff_toNat_le.mpr (Nat.le_of_lt hsmall))

theorem of_isWordChar (h : isWordChar c = true) : IsGraphic c := by
  unfold isWordChar at h
  rw [Bool.or_eq_true, beq_iff_eq] at h
  obtain rfl | h := h
  · decide
  · unfold Char.isAlphanum Char.isAlpha Char.isUpper Char.isLower Char.isDigit at h
    simp only [Bool.or_eq_true, Bool.and_eq_true, decide_eq_true_eq, UInt32.le_iff_toNat_le] at h
    change ((65 ≤ c.toNat ∧ c.toNat ≤ 90) ∨ (97 ≤ c.toNat ∧ c.toNat ≤ 122)) ∨
      (48 ≤ c.toNat ∧ c.toNat ≤ 57) at h
    unfold IsGraphic
    omega

theorem of_isDigit (h : c.isDigit = true) : IsGraphic c :=
  of_isWordChar (by simp [isWordChar, Char.isAlphanum, h])

theorem of_isWordStart (h : isWordStart c = true) : IsGraphic c := by
  refine of_isWordChar ?_
  unfold isWordStart at h
  unfold isWordChar Char.isAlphanum
  rw [← Bool.or_assoc, h, Bool.true_or]

end IsGraphic

/-- **Tokens are made of characters that can be seen.** So there is no blank
or line break in them, and each of their characters is one byte. -/
theorem Pattern.isGraphic {d : Dialect} {kind : TokenKind} {text : List Char}
    (h : Pattern d kind text) : ∀ c ∈ text, IsGraphic c := by
  cases h with
  | digits _ hwhole => exact fun c hc => .of_isDigit (hwhole c hc)
  | decimal _ hwhole _ hfraction =>
    refine List.forall_mem_append.mpr ⟨fun c hc => .of_isDigit (hwhole c hc), ?_⟩
    exact List.forall_mem_cons.mpr ⟨by decide, fun c hc => .of_isDigit (hfraction c hc)⟩
  | libraryName _ _ hword =>
    exact List.forall_mem_cons.mpr ⟨by decide, fun c hc => .of_isWordChar (hword c hc)⟩
  | qualifier _ _ hword =>
    refine List.forall_mem_cons.mpr ⟨by decide, List.forall_mem_append.mpr
      ⟨fun c hc => .of_isWordChar (hword c hc), ?_⟩⟩
    exact List.forall_mem_cons.mpr ⟨by decide, List.forall_mem_singleton.mpr (by decide)⟩
  | word hc hcs =>
    exact List.forall_mem_cons.mpr ⟨.of_isWordStart hc, fun c hc => .of_isWordChar (hcs c hc)⟩
  | mark hmem =>
    have hmarks : (d.marks.all fun m => m.1.all fun c => decide (IsGraphic c)) = true := by
      cases d <;> decide
    have hmark := List.all_eq_true.mp hmarks _ hmem
    exact fun c hc => of_decide_eq_true (List.all_eq_true.mp hmark c hc)

/-! ## Lines that are plain up to a place -/

/-- **The line is plain up to here**: since it began, all characters were of
one byte. -/
def PlainLine (seen : List Char) : Prop :=
  ∃ front head, seen = front ++ head ∧ Lines.Begins front ∧ '\n' ∉ head ∧
    ∀ c ∈ head, c.utf8Size = 1

namespace PlainLine

theorem nil : PlainLine [] :=
  ⟨[], [], rfl, .inl rfl, List.not_mem_nil, List.forall_mem_nil _⟩

theorem feed (seen : List Char) : PlainLine (seen ++ ['\n']) :=
  ⟨seen ++ ['\n'], [], (List.append_nil _).symm, .inr List.getLast?_concat, List.not_mem_nil,
    List.forall_mem_nil _⟩

theorem concat {seen : List Char} (h : PlainLine seen) {c : Char} (hc : c.utf8Size = 1) :
    PlainLine (seen ++ [c]) := by
  by_cases hfeed : c = '\n'
  · rw [hfeed]
    exact feed seen
  · obtain ⟨front, head, rfl, hfront, hhead, hplain⟩ := h
    refine ⟨front, head ++ [c], List.append_assoc .., hfront, ?_, ?_⟩
    · rw [List.mem_append, List.mem_singleton]
      exact not_or.mpr ⟨hhead, Ne.symm hfeed⟩
    · exact List.forall_mem_append.mpr ⟨hplain, List.forall_mem_singleton.mpr hc⟩

theorem append {seen : List Char} (h : PlainLine seen) {cs : List Char}
    (hcs : ∀ c ∈ cs, c.utf8Size = 1) : PlainLine (seen ++ cs) := by
  induction cs generalizing seen with
  | nil => rwa [List.append_nil]
  | cons c cs ih =>
    obtain ⟨hc, hcs⟩ := List.forall_mem_cons.mp hcs
    have hlater := ih (h.concat hc) hcs
    rwa [List.append_assoc] at hlater

end PlainLine

/-- **Where the scanner stands** between two pieces: the line is plain up to
here, or it ends here. -/
def Clear (seen rest : List Char) : Prop :=
  PlainLine seen ∨ rest = [] ∨ ∃ after, rest = '\n' :: after

section Pieces

variable {d : Dialect} {c : Char} {seen cs passed rest : List Char}

/-- A blank or a comment keeps the invariant: a comment may have any
characters, but the line ends after it, so none of them stands before a token
of the same line. -/
theorem Clear.after_gap (h : Clear seen (c :: (passed ++ rest)))
    (hread : Piece.read d c (passed ++ rest) = .gap passed.length) :
    Clear (seen ++ c :: passed) rest := by
  obtain ⟨hblank, rfl⟩ | ⟨-, -, -, -, hend⟩ := Piece.gap_cases hread
  · left
    obtain hplain | hnil | ⟨after, hfeed⟩ := h
    · have hsize : c.utf8Size = 1 := by
        obtain rfl | rfl | rfl | rfl := Piece.isBlank_cases hblank <;> rfl
      exact hplain.concat hsize
    · cases hnil
    · rw [(List.cons.inj hfeed).1]
      exact .feed seen
  · exact .inr hend

/-- Where something else than a gap stands, the line does not end, and all
before it in the line is plain. -/
theorem Clear.plainLine (h : Clear seen (c :: cs)) (hread : ∀ more, Piece.read d c cs ≠ .gap more) :
    PlainLine seen ∧ isBlank c = false := by
  have hblank : isBlank c = false := (settled_of_read hread).1 c rfl
  refine ⟨?_, hblank⟩
  obtain hplain | hnil | ⟨after, hfeed⟩ := h
  · exact hplain
  · cases hnil
  · rw [(List.cons.inj hfeed).1] at hblank
    cases hblank

end Pieces

/-! ## Words at their places -/

/-- **A word stands at a place of a text**, in a line that is plain up to it
and that does not end in the word. -/
def StandsAt (text word : List Char) (p : Position) : Prop :=
  word ≠ [] ∧ '\n' ∉ word ∧ '\r' ∉ word ∧
    ∃ seen rest, text = seen ++ (word ++ rest) ∧ PlainLine seen ∧ p = Position.start.after seen

/-- **All tokens stand at their places, and so does a character that is
refused.** By induction on the pieces of the text, with what stands before
them in their line as the invariant. -/
theorem standsAt_of_scan (d : Dialect) (source : String) :
    match Token.scan d source with
    | .ok tokens => ∀ t ∈ tokens, t.kind ≠ .eof →
        StandsAt source.toList t.lexeme.toList t.place
    | .error e => ∃ c p, e = .atSpan (.illegalCharacter c) (p.span c.utf8Size) ∧
        StandsAt source.toList [c] p := by
  -- the scanner has passed `seen`, and the invariant holds there
  refine Token.scanFrom_induction (motive := fun cs p result =>
    ∀ seen, source.toList = seen ++ cs → p = Position.start.after seen → Clear seen cs →
      match result with
      | .ok tokens => ∀ t ∈ tokens, t.kind ≠ .eof →
          StandsAt source.toList t.lexeme.toList t.place
      | .error e => ∃ c p, e = .atSpan (.illegalCharacter c) (p.span c.utf8Size) ∧
          StandsAt source.toList [c] p)
    ?_ ?_ ?_ ?_ source.toList .start [] rfl rfl (.inl .nil)
  · intro p seen _ _ _ t ht hne
    rw [List.mem_singleton.mp ht] at hne
    exact absurd rfl hne
  · intro p c passed rest result hread ih seen htext hp hclear
    refine ih (seen ++ c :: passed) ?_ ?_ (hclear.after_gap hread)
    · rw [htext, List.append_assoc]
      rfl
    · rw [hp, Position.after_append]
  · intro p c passed rest kind result hread ih seen htext hp hclear
    obtain ⟨hplain, -⟩ := hclear.plainLine (fun more h => by rw [hread] at h; cases h)
    have hgraphic : ∀ c' ∈ c :: passed, IsGraphic c' := by
      have hpattern := (Lexeme.ofRead hread).pattern
      rw [List.take_left] at hpattern
      exact hpattern.isGraphic
    have hlater := ih (seen ++ c :: passed) (by rw [htext, List.append_assoc]; rfl)
      (by rw [hp, Position.after_append])
      (.inl (hplain.append fun c' hc' => (hgraphic c' hc').utf8Size_eq))
    cases result with
    | error e => exact hlater
    | ok tokens =>
      intro t ht hne
      obtain rfl | ht := List.mem_cons.mp ht
      · have hwhole (c' : Char) (hc' : ¬IsGraphic c') : c' ∉ c :: passed :=
          fun hmem => hc' (hgraphic c' hmem)
        dsimp only
        rw [String.toList_ofList]
        exact ⟨List.cons_ne_nil _ _, hwhole _ (by decide), hwhole _ (by decide), seen, rest, htext,
          hplain, hp⟩
      · exact hlater t ht hne
  · intro p c cs hread seen htext hp hclear
    obtain ⟨hplain, hblank⟩ := hclear.plainLine (fun more h => by rw [hread] at h; cases h)
    have hother (c' : Char) (hc' : isBlank c' = true) : c' ∉ [c] := by
      rw [List.mem_singleton]
      rintro rfl
      rw [hc'] at hblank
      cases hblank
    exact ⟨c, p, rfl, List.cons_ne_nil _ _, hother _ rfl, hother _ rfl, seen, cs, htext, hplain, hp⟩

/-! ## Places in a plain line -/

namespace Position

theorem offset_after (p : Position) (cs : List Char) :
    (p.after cs).offset = p.offset + (encode cs).length := by
  induction cs generalizing p with
  | nil => rfl
  | cons c cs ih =>
    rw [after_cons, ih, encode_cons, List.length_append, String.length_utf8EncodeChar, next]
    split
    · next hc =>
      rw [hc]
      exact Nat.add_assoc ..
    · exact Nat.add_assoc ..

theorem line_after (p : Position) (cs : List Char) :
    (p.after cs).line = p.line + cs.count '\n' := by
  induction cs generalizing p with
  | nil => rfl
  | cons c cs ih =>
    rw [after_cons, ih, next]
    split
    · next hc =>
      rw [hc, List.count_cons_self]
      exact Nat.add_right_comm ..
    · next hc => rw [List.count_cons_of_ne hc]

/-- Characters of one byte are as many columns. Columns are counted in bytes,
so for others the two would differ. -/
theorem column_after (p : Position) {head : List Char} (hhead : '\n' ∉ head)
    (hplain : ∀ c ∈ head, c.utf8Size = 1) : (p.after head).column = p.column + head.length := by
  induction head generalizing p with
  | nil => rfl
  | cons c head ih =>
    obtain ⟨hc, hhead⟩ := not_or.mp (mt List.mem_cons.mpr hhead)
    obtain ⟨hsize, hplain⟩ := List.forall_mem_cons.mp hplain
    rw [after_cons, ih _ hhead hplain, next, if_neg (Ne.symm hc), List.length_cons, hsize]
    exact Nat.add_right_comm ..

theorem column_of_begins {front : List Char} (h : Lines.Begins front) :
    (start.after front).column = 1 := by
  obtain rfl | hlast := h
  · rfl
  · obtain ⟨before, rfl⟩ := List.getLast?_eq_some_iff.mp hlast
    rw [after_append, after_cons, next, if_pos rfl]
    rfl

end Position

/-! ## Renderings -/

/-- **A caret under a word**: in a rendering, one row shows a line, with the
word after as many characters of it as the column says; on the row below, as
many characters stand before the first caret as before the word. -/
def CaretUnder (rendering line : String) (column : Nat) (word : String) : Prop :=
  ∃ above margin rest blanks carets below,
    let lead := margin ++ line.toList.take (column - 1)
    rendering.toList = above ++ (lead ++ word.toList ++ rest) ++
      '\n' :: (blanks ++ '^' :: carets) ++ '\n' :: below ∧
    lead ++ word.toList ++ rest = margin ++ line.toList ∧
    Lines.Begins above ∧ '\n' ∉ lead ++ word.toList ++ rest ∧ '\n' ∉ blanks ++ '^' :: carets ∧
    '^' ∉ blanks ∧ blanks.length = lead.length

namespace Diagnostic

theorem toList_times (n : Nat) (c : Char) : (times n c).toList = List.replicate n c :=
  String.toList_ofList

/-- Rows that follow each other, in a rendering: the second one stands right
below the first. -/
theorem toList_render_rows {diag : Diagnostic} {above below : List String} {first second : String}
    (h : diag.rows false = above ++ first :: second :: below) :
    ∃ before after, Lines.Begins before ∧ (diag.render false).toList =
      before ++ first.toList ++ '\n' :: second.toList ++ '\n' :: after := by
  refine ⟨(String.join (above.map (· ++ "\n"))).toList,
    (String.join (below.map (· ++ "\n"))).toList, ?_, ?_⟩
  · cases above using List.reverseRecOn with
    | nil => exact .inl rfl
    | append_singleton rows row =>
      right
      rw [List.map_append, String.join_append]
      simp
  · rw [render, h]
    simp [String.join_append, String.join_cons]

/-- The rows that show the line of a finding and underline it. What stands
before the line and before the carets takes the same width. -/
theorem rows_place {diag : Diagnostic} {l : Location} {line : String}
    (hplace : diag.location? = some l) (hline : diag.sourceLine? = some line) :
    ∃ above below, diag.rows false = above ++ (toString l.line ++ " " ++ "|" ++ " " ++ line) ::
      (times (toString l.line).length ' ' ++ " " ++ "|" ++ " " ++ underline l) :: below := by
  unfold rows placeRows
  rw [hplace, hline]
  exact ⟨[_, _, _], _ :: _, rfl⟩

theorem feed_notMem_toString (n : Nat) : '\n' ∉ (toString n).toList := by
  rw [Nat.toString_eq_repr, Nat.toList_repr]
  intro h
  cases Nat.isDigit_of_mem_toDigits (by omega) (by omega) h

/-- **The carets begin under the place of a finding**, if its column counts
the characters before it. The two rows begin with the same number of
characters. -/
theorem caretUnder_of_place {diag : Diagnostic} {l : Location} {line word : String}
    {head tail : List Char} (hplace : diag.location? = some l)
    (hline : diag.sourceLine? = some line) (hsplit : line.toList = head ++ word.toList ++ tail)
    (hcolumn : l.column = 1 + head.length) (hfeed : '\n' ∉ line.toList) :
    CaretUnder (diag.render false) line l.column word := by
  obtain ⟨above, below, hrows⟩ := rows_place hplace hline
  have hdigits := feed_notMem_toString l.line
  generalize toString l.line = number at hrows hdigits
  obtain ⟨before, after, hbegins, hrender⟩ := toList_render_rows hrows
  have hhead : line.toList.take (l.column - 1) = head := by
    rw [hsplit, hcolumn, Nat.add_sub_cancel_left, List.append_assoc, List.take_left]
  obtain ⟨more, hmore⟩ : ∃ more, max l.length 1 = more + 1 :=
    ⟨_, (Nat.sub_add_cancel (Nat.le_max_right _ _)).symm⟩
  have hfirst : (number ++ " " ++ "|" ++ " " ++ line).toList =
      number.toList ++ [' ', '|', ' '] ++ line.toList := by simp
  have hsecond : (times number.length ' ' ++ " " ++ "|" ++ " " ++ underline l).toList =
      List.replicate number.length ' ' ++ [' ', '|', ' '] ++
        List.replicate (l.column - 1) ' ' ++ '^' :: List.replicate more '^' := by
    simp [underline, toList_times, hmore, List.replicate_succ]
  have hrow : number.toList ++ [' ', '|', ' '] ++ head ++ word.toList ++ tail =
      number.toList ++ [' ', '|', ' '] ++ line.toList := by
    rw [hsplit]
    simp only [List.append_assoc]
  refine ⟨before, number.toList ++ [' ', '|', ' '], tail,
    List.replicate number.length ' ' ++ [' ', '|', ' '] ++
      List.replicate (l.column - 1) ' ', List.replicate more '^', after, ?_⟩
  dsimp only
  rw [hhead, hrow]
  refine ⟨?_, rfl, hbegins, ?_, ?_, ?_, ?_⟩
  · rw [hrender, hfirst, hsecond]
  · simp [hdigits, hfeed]
  · simp
  · simp
  · simp [hcolumn, ← String.length_toList]

end Diagnostic

/-! ## Findings in a text -/

/-- **The word that a span points at**: the lexeme of a token, or the
character that the scanner refuses. -/
def Offends (d : Dialect) (source : String) (span : Span) (word : String) : Prop :=
  (∃ tokens, Token.scan d source = .ok tokens ∧
    ∃ t ∈ tokens, t.kind ≠ .eof ∧ span = t.span ∧ word = t.lexeme) ∨
  ∃ c, Token.scan d source = .error (.atSpan (.illegalCharacter c) span) ∧
    word = String.singleton c

/-- **A diagnostic that shows a word of a text**: it has the line of the text
that holds the span, the word stands there after as many characters as the
column of the span says, and in a rendering without colours the carets begin
under it. -/
def Diagnostic.Shows (diag : Diagnostic) (text : String) (span : Span) (word : String) : Prop :=
  ∃ line, diag.sourceLine? = some line ∧ Lines.Holds text span.offset line ∧
    word.toList <+: line.toList.drop (span.column - 1) ∧
    CaretUnder (diag.render false) line span.column word

/-- A word that a span points at stands at the place of the span, in its line
and column. -/
theorem Offends.standsAt {d : Dialect} {source word : String} {span : Span}
    (h : Offends d source span word) :
    ∃ p, StandsAt source.toList word.toList p ∧ span = p.span span.length := by
  have hscan := standsAt_of_scan d source
  obtain ⟨tokens, heq, t, ht, hne, rfl, rfl⟩ | ⟨c, heq, rfl⟩ := h
  · rw [heq] at hscan
    exact ⟨t.place, hscan t ht hne, rfl⟩
  · rw [heq] at hscan
    obtain ⟨c', p, he, hstands⟩ := hscan
    cases he
    refine ⟨p, ?_, rfl⟩
    rwa [String.toList_singleton]

namespace SourceFile

/-- **The report of a fault shows the word that it points at**, in its line,
with the carets under its first character. -/
theorem reportError_shows (f : SourceFile) {e : CompileError} {span : Span}
    (hspan : e.span? = some span) {d : Dialect} {word : String}
    (h : Offends d f.text span word) : (f.reportError e).Shows f.text span word := by
  obtain ⟨p, ⟨hne, hfeed, hreturn, seen, rest, htext, hplain, rfl⟩, hplace⟩ := h.standsAt
  obtain ⟨front, head, rfl, hfront, hhead, hsizes⟩ := hplain
  have hoffset : span.offset = (encode (front ++ head)).length := by
    rw [hplace]
    exact (Position.offset_after _ _).trans (Nat.zero_add _)
  have hnumber : span.line = 1 + front.count '\n' := by
    rw [hplace]
    refine (Position.line_after _ _).trans ?_
    rw [List.count_append, List.count_eq_zero_of_not_mem hhead]
    rfl
  have hcolumn : span.column = 1 + head.length := by
    rw [hplace]
    show (Position.start.after (front ++ head)).column = _
    rw [Position.after_append, Position.column_after _ hhead hsizes,
      Position.column_of_begins hfront]
  have hsplit : f.text.toList = front ++ (head ++ word.toList ++ rest) := by
    rw [htext]
    simp only [List.append_assoc]
  obtain ⟨line, tail, hget, hholds, hline⟩ :=
    Lines.exists_get? hsplit hfront hhead hne hfeed hreturn
  have hplaced : (f.reportError e).location? =
      some ⟨f.name, span.line, span.column, span.length⟩ := by
    unfold reportError
    rw [hspan]
    rfl
  have hshown : (f.reportError e).sourceLine? = some line := by
    unfold reportError
    rw [hspan, ← hget, ← hnumber]
    rfl
  have hfree : '\n' ∉ line.toList := by
    obtain ⟨_, _, _, _, -, heq, -, -, hnone, -⟩ := hholds
    rwa [heq]
  have hcaret := Diagnostic.caretUnder_of_place hplaced hshown hline hcolumn hfree
  rw [← hoffset] at hholds
  refine ⟨line, hshown, hholds, ?_, hcaret⟩
  rw [hline, hcolumn, Nat.add_sub_cancel_left, List.append_assoc, List.drop_left]
  exact List.prefix_append _ _

end SourceFile

theorem diagnose_of_error {loader : Loader Id} {d : Dialect} {mode : Cpp.Mode} {file : SourceFile}
    {e : CompileError} (h : compileUnit loader d mode file.text = .error e) :
    diagnose loader d mode file = .error (loader.reportError file e) := by
  have hrun : (compileUnit loader d mode file.text).run = .error e := h
  unfold diagnose
  rw [hrun]
  rfl

/-- **The caret stands under the offending text.** If a compilation fails, its
diagnostic shows what the span of the error points at, whenever that is a
token other than the end of the text, or a refused character: in the text of
the unit if the error names no library, and else in the text of the library
that it names, which the loader has. -/
theorem caret_under_offending_text (loader : Loader Id) (d : Dialect) (mode : Cpp.Mode)
    (file : SourceFile) (e : CompileError) (h : compileUnit loader d mode file.text = .error e) :
    ∃ diag, diagnose loader d mode file = .error diag ∧
      (e.library? = none → ∀ span word, e.span? = some span → Offends d file.text span word →
        diag.Shows file.text span word) ∧
      (∀ library, e.library? = some library → ∃ text, loader.text library = .ok text ∧
        ∀ span word, e.span? = some span → Offends .maple text span word →
          diag.Shows text span word) := by
  refine ⟨loader.reportError file e, diagnose_of_error h, ?_, ?_⟩
  · intro hnone span word hspan hoffends
    have hreport : loader.reportError file e = file.reportError e := by
      unfold Loader.reportError
      rw [hnone]
      rfl
    rw [hreport]
    exact file.reportError_shows hspan hoffends
  · intro library hlibrary
    obtain ⟨text, htext⟩ : ∃ text, loader.text library = .ok text := by
      obtain ⟨hnone, -⟩ | ⟨-, -, library', -, text, hlibrary', -, -, -, htext, -⟩ :=
        located_of_compileUnit h
      · cases hlibrary.symm.trans hnone
      · obtain rfl := Option.some.inj (hlibrary.symm.trans hlibrary')
        exact ⟨text, htext⟩
    refine ⟨text, htext, fun span word hspan hoffends => ?_⟩
    have hreport : loader.reportError file e =
        SourceFile.reportError ⟨loader.describe library, text⟩ e := by
      have hload : loader.load library = .ok text := htext
      unfold Loader.reportError
      rw [hlibrary]
      dsimp only
      rw [hload]
      rfl
    rw [hreport]
    exact SourceFile.reportError_shows ⟨loader.describe library, text⟩ hspan hoffends

/-- A library with a comment of longer characters, carriage returns, and a
name that is not declared. -/
def commentedLibrary : String := "// é\r\ndec i32 x y\r\n"

/-- The undeclared name is shown in its line, which has nothing of the
comment. -/
theorem caret_under_offending_text_library :
    compileUnit (Shelf.pureLoader [("a", .text commentedLibrary)]) .maple .program "lib @a" =
        .error ⟨.undeclared "y", some ⟨17, 1, 2, 11⟩, some "a"⟩ ∧
      (Shelf.pureLoader [("a", .text commentedLibrary)]).text "a" = .ok commentedLibrary ∧
      Offends .maple commentedLibrary ⟨17, 1, 2, 11⟩ "y" ∧
      ∃ diag, diagnose (Shelf.pureLoader [("a", .text commentedLibrary)]) .maple .program
          ⟨"unit", "lib @a"⟩ = .error diag ∧
        diag.Shows commentedLibrary ⟨17, 1, 2, 11⟩ "y" := by
  have hunit : compileUnit (Shelf.pureLoader [("a", .text commentedLibrary)]) .maple .program
      "lib @a" = .error ⟨.undeclared "y", some ⟨17, 1, 2, 11⟩, some "a"⟩ :=
    eq_error_of_errorOf? (by decide +kernel)
  have hscan : Token.scan .maple commentedLibrary = .ok [⟨.dec, "dec", ⟨7, 2, 1⟩⟩,
      ⟨.type .i32, "i32", ⟨11, 2, 5⟩⟩, ⟨.identifier, "x", ⟨15, 2, 9⟩⟩,
      ⟨.identifier, "y", ⟨17, 2, 11⟩⟩, .eof ⟨20, 3, 1⟩] := by
    decide +kernel
  have hoffends : Offends .maple commentedLibrary ⟨17, 1, 2, 11⟩ "y" :=
    .inl ⟨_, hscan, ⟨.identifier, "y", ⟨17, 2, 11⟩⟩, by simp, by decide, rfl, rfl⟩
  obtain ⟨diag, hdiag, -, hlibrary⟩ :=
    caret_under_offending_text _ _ _ ⟨"unit", "lib @a"⟩ _ hunit
  obtain ⟨text, htext, hshows⟩ := hlibrary "a" rfl
  obtain rfl : commentedLibrary = text := Except.ok.inj htext
  exact ⟨hunit, rfl, hoffends, diag, hdiag, hshows _ _ rfl hoffends⟩

end MapleCompiler
