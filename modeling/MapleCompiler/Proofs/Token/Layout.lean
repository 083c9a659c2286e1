import MapleCompiler.Proofs.Text.Bytes
import MapleCompiler.Proofs.Token.Vocabulary

/-!
# Tokens and the bytes between them

The scanner passes over a text once, and every later message points at a place
that it found. This module says that it loses nothing on the way and that its
places are right, in terms of the *bytes* of the text: `Covers` lays the tokens
out over the bytes, each one at its offset, with nothing but blanks and comments
before it (`Gap`), and the last one at the very end. What the scanner refuses is
a character of the text, at its own place.

Main statement: `Token.scan_covers`. It follows the pieces of the text, one after
the other (`Token.scanFrom_induction`): each piece moves the offset on by the
bytes of its characters.
-/

namespace MapleCompiler

/-! ## The pieces of a text -/

namespace Piece

variable {d : Dialect} {c : Char} {cs : List Char} {more : Nat}

theorem number_ne_gap : number cs ≠ .gap more := by
  unfold number
  dsimp only
  split
  · split <;> nofun
  · nofun

theorem libraryName_ne_gap : libraryName cs ≠ .gap more := by
  unfold libraryName
  dsimp only
  split
  · nofun
  · split <;> nofun

theorem mark_ne_gap : mark d c cs ≠ .gap more := by
  unfold mark
  split <;> nofun

/-- Only blanks and comments are passed over. A comment goes on up to the next
line feed, which is not a part of it. -/
theorem read_eq_gap (h : read d c cs = .gap more) :
    isBlank c = true ∧ more = 0 ∨
      startsComment d c cs = true ∧ more = runLength (· != '\n') cs := by
  unfold read at h
  split at h
  · next hblank => exact .inl ⟨hblank, (Piece.gap.inj h).symm⟩
  split at h
  · next hcomment => exact .inr ⟨hcomment, (Piece.gap.inj h).symm⟩
  split at h
  · exact absurd h number_ne_gap
  split at h
  · exact absurd h libraryName_ne_gap
  split at h
  · cases h
  · exact absurd h mark_ne_gap

theorem more_le_of_gap (h : read d c cs = .gap more) : more ≤ cs.length := by
  obtain ⟨-, rfl⟩ | ⟨-, rfl⟩ := read_eq_gap h
  · exact Nat.zero_le _
  · exact (List.takeWhile_prefix _).length_le

/-- **What is passed over**: a blank, or a comment up to a line feed or to the
end of the text. Comments are there in the full dialect only. -/
theorem gap_cases {passed rest : List Char}
    (h : read d c (passed ++ rest) = .gap passed.length) :
    isBlank c = true ∧ passed = [] ∨
      d = .maple ∧ c = '/' ∧ (∃ body, passed = '/' :: body) ∧ '\n' ∉ passed ∧
        (rest = [] ∨ ∃ after, rest = '\n' :: after) := by
  obtain ⟨hblank, hmore⟩ | ⟨hcomment, hmore⟩ := read_eq_gap h
  · exact .inl ⟨hblank, List.eq_nil_of_length_eq_zero hmore⟩
  right
  -- the comment is the run of characters before the first line feed
  obtain ⟨run, after, hsplit, hrun, hafter⟩ := exists_run (· != '\n') (passed ++ rest)
  rw [hsplit, runLength_append hrun hafter] at hmore
  obtain ⟨rfl, rfl⟩ := List.append_inj hsplit hmore
  unfold startsComment at hcomment
  simp only [Bool.and_eq_true, beq_iff_eq] at hcomment
  obtain ⟨⟨hd, rfl⟩, hslash⟩ := hcomment
  refine ⟨?_, rfl, ?_, fun hmem => by simpa using hrun _ hmem, ?_⟩
  · cases d with
    | maple => rfl
    | legacy => cases hd
  · cases passed with
    | cons c body =>
      obtain rfl := Option.some.inj hslash
      exact ⟨body, rfl⟩
    | nil =>
      have hfeed := hafter '/' hslash
      cases hfeed
  · cases rest with
    | nil => exact .inl rfl
    | cons c after =>
      have hfeed : c = '\n' := by simpa using hafter c rfl
      exact .inr ⟨after, by rw [hfeed]⟩

end Piece

namespace Token

variable {d : Dialect}

/-- **Induction on the pieces of a text.** The scanner goes on after each
blank, comment or lexeme with the place after its characters, so what is shown
of a text is shown piece by piece and not character by character. -/
theorem scanFrom_induction
    {motive : List Char → Position → Except CompileError (List Token) → Prop}
    (nil : ∀ p, motive [] p (.ok [eof p]))
    (gap : ∀ p c passed rest result,
      Piece.read d c (passed ++ rest) = .gap passed.length →
      motive rest (p.after (c :: passed)) result → motive (c :: (passed ++ rest)) p result)
    (lexeme : ∀ p c passed rest kind result,
      Piece.read d c (passed ++ rest) = .lexeme kind passed.length →
      motive rest (p.after (c :: passed)) result →
      motive (c :: (passed ++ rest)) p
        (result.map (⟨kind, String.ofList (c :: passed), p⟩ :: ·)))
    (illegal : ∀ p c cs, Piece.read d c cs = .illegal →
      motive (c :: cs) p (.error (.atSpan (.illegalCharacter c) (p.span c.utf8Size))))
    (cs : List Char) (p : Position) : motive cs p (scanFrom d cs 0 p) := by
  induction hn : cs.length using Nat.strong_induction_on generalizing cs p with
  | _ n ih =>
    cases cs with
    | nil => exact nil p
    | cons c cs =>
      -- a piece that ends within the text splits it in two
      have hsplit {more : Nat} (hle : more ≤ cs.length) :
          ∃ passed rest, cs = passed ++ rest ∧ more = passed.length :=
        ⟨cs.take more, cs.drop more, (List.take_append_drop more cs).symm,
          (List.length_take_of_le hle).symm⟩
      have hlater {passed rest : List Char} (hcs : cs = passed ++ rest) :
          motive rest (p.after (c :: passed)) (scanFrom d rest 0 (p.after (c :: passed))) := by
        refine ih rest.length ?_ rest _ rfl
        rw [← hn, hcs, List.length_cons, List.length_append]
        omega
      rw [scanFrom]
      cases hread : Piece.read d c cs with
      | gap more =>
        obtain ⟨passed, rest, rfl, rfl⟩ := hsplit (Piece.more_le_of_gap hread)
        dsimp only
        rw [scanFrom_append]
        exact gap p c passed rest _ hread (hlater rfl)
      | lexeme kind more =>
        obtain ⟨passed, rest, rfl, rfl⟩ := hsplit (Piece.read_stops hread stops_nil).2
        have hmap (result : Except CompileError (List Token)) (t : Token) :
            (do return t :: (← result)) = result.map (t :: ·) := by
          cases result <;> rfl
        dsimp only
        rw [scanFrom_append, List.take_left, hmap]
        exact lexeme p c passed rest kind _ hread (hlater rfl)
      | illegal => exact illegal p c cs hread

/-- Scanning gives an end mark, or fails at a character. So a reader of the
tokens always has a mark to stop at. -/
theorem scan_cases (d : Dialect) (source : String) :
    match scan d source with
    | .ok tokens => ∃ t ∈ tokens, t.kind = .eof
    | .error e => ∃ c span, e = .atSpan (.illegalCharacter c) span := by
  refine scanFrom_induction (motive := fun _ _ result =>
    match result with
    | .ok tokens => ∃ t ∈ tokens, t.kind = .eof
    | .error e => ∃ c span, e = .atSpan (.illegalCharacter c) span) ?_ ?_ ?_ ?_ source.toList .start
  · intro p
    exact ⟨_, List.mem_singleton_self _, rfl⟩
  · intro p c passed rest result _ ih
    exact ih
  · intro p c passed rest kind result _ ih
    cases result with
    | ok tokens =>
      obtain ⟨t, ht, hkind⟩ := ih
      exact ⟨t, List.mem_cons_of_mem _ ht, hkind⟩
    | error e => exact ih
  · intro p c cs _
    exact ⟨c, _, rfl⟩

end Token

/-! ## Tokens over bytes -/

/-- The bytes of blanks. -/
def blankBytes : List UInt8 := [' ', '\t', '\r', '\n'].map Char.toUInt8

/-- **A stretch of a text that holds no token**, from one offset to another:
blanks and, in the full dialect, comments. A comment begins with two slashes
and runs up to a line feed or to the end of the text. -/
inductive Gap (d : Dialect) (bytes : List UInt8) : Nat → Nat → Prop
  | nil {i : Nat} (h : i ≤ bytes.length) : Gap d bytes i i
  | blank {i j : Nat} {b : UInt8} (hb : bytes[i]? = some b) (hblank : b ∈ blankBytes)
      (hrest : Gap d bytes (i + 1) j) : Gap d bytes i j
  | comment {i k j : Nat} (hd : d = .maple) (hfirst : bytes[i]? = some '/'.toUInt8)
      (hsecond : bytes[i + 1]? = some '/'.toUInt8) (hlong : i + 2 ≤ k)
      (hline : ∀ l, i ≤ l → l < k → bytes[l]? ≠ some lineFeed)
      (hend : bytes[k]? = some lineFeed ∨ k = bytes.length)
      (hrest : Gap d bytes k j) : Gap d bytes i j

/-- **Tokens that cover a text** from an offset on. Each token stands after a
gap, at the place that it says, and its lexeme is what stands there; the gap
before the next one begins where the lexeme ends. The end of the text is the
last token, and no other is one. -/
inductive Covers (d : Dialect) (bytes : List UInt8) : Nat → List Token → Prop
  | last {i : Nat} (hgap : Gap d bytes i bytes.length) :
      Covers d bytes i [.eof (.inBytes bytes bytes.length)]
  | next {i : Nat} {t : Token} {rest : List Token} (hgap : Gap d bytes i t.place.offset)
      (hplace : t.place = .inBytes bytes t.place.offset) (hkind : t.kind ≠ .eof)
      (hne : t.lexeme ≠ "")
      (htext : bytes.extract t.place.offset (t.place.offset + t.width) = bytesOf t.lexeme)
      (hrest : Covers d bytes (t.place.offset + t.width) rest) : Covers d bytes i (t :: rest)

/-- **A character that is refused**: it stands at the offset of the span, and
the span has its length and its place. -/
def Refuses (bytes : List UInt8) (e : CompileError) : Prop :=
  ∃ c offset, bytes.extract offset (offset + c.utf8Size) = String.utf8EncodeChar c ∧
    e = .atSpan (.illegalCharacter c) ((Position.inBytes bytes offset).span c.utf8Size)

section Bytes

variable {d : Dialect}

theorem Gap.trans {bytes : List UInt8} {i j k : Nat} (h : Gap d bytes i j)
    (h' : Gap d bytes j k) : Gap d bytes i k := by
  induction h with
  | nil _ => exact h'
  | blank hb hblank _ ih => exact .blank hb hblank (ih h')
  | comment hd hfirst hsecond hlong hline hend _ ih =>
    exact .comment hd hfirst hsecond hlong hline hend (ih h')

/-- What comes after a gap covers the text from before it: the gap is one of
blanks and comments, and two gaps in a row are one. -/
theorem Covers.after_gap {bytes : List UInt8} {i j : Nat} {tokens : List Token}
    (hgap : Gap d bytes i j) (h : Covers d bytes j tokens) : Covers d bytes i tokens := by
  cases h with
  | last hgap' => exact .last (hgap.trans hgap')
  | next hgap' hplace hkind hne htext hrest =>
    exact .next (hgap.trans hgap') hplace hkind hne htext hrest

/-- The bytes after some others, by their offset: those of the characters that
stand there. -/
theorem extract_encode (before cs rest : List Char) :
    (encode (before ++ (cs ++ rest))).extract (encode before).length
      ((encode before).length + (encode cs).length) = encode cs := by
  rw [encode_append, encode_append, List.extract_eq_take_drop, Nat.add_sub_cancel_left,
    List.drop_left, List.take_left]

/-- A blank is a gap, at the bytes after those before it. -/
theorem Gap.of_blank {c : Char} (hblank : isBlank c = true) (before rest : List Char) :
    Gap d (encode (before ++ ([c] ++ rest))) (encode before).length
      ((encode before).length + (encode [c]).length) := by
  have hbyte : encode [c] = [c.toUInt8] ∧ c.toUInt8 ∈ blankBytes := by
    obtain rfl | rfl | rfl | rfl := Piece.isBlank_cases hblank <;> decide
  rw [encode_append, encode_append, hbyte.1]
  refine .blank ?_ hbyte.2 (.nil ?_)
  · rw [List.getElem?_append_right (Nat.le_refl _), Nat.sub_self]
    rfl
  · simp only [List.length_append, List.length_singleton]
    omega

/-- A comment is a gap, if a line feed or the end of the text follows it. -/
theorem Gap.of_comment {body : List Char} (hd : d = .maple) (hline : '\n' ∉ '/' :: '/' :: body)
    (before : List Char) {rest : List Char} (hend : rest = [] ∨ ∃ after, rest = '\n' :: after) :
    Gap d (encode (before ++ ('/' :: '/' :: body ++ rest))) (encode before).length
      ((encode before).length + (encode ('/' :: '/' :: body)).length) := by
  have hslashes : encode ('/' :: '/' :: body) = '/'.toUInt8 :: '/'.toUInt8 :: encode body := rfl
  have hlong : 2 ≤ (encode ('/' :: '/' :: body)).length := by
    rw [hslashes, List.length_cons, List.length_cons]
    omega
  -- inside the comment, bytes are those of its characters
  have hinside {l : Nat} (hl : l < (encode ('/' :: '/' :: body)).length) :
      (encode before ++ (encode ('/' :: '/' :: body) ++ encode rest))[(encode before).length + l]? =
        (encode ('/' :: '/' :: body))[l]? := by
    rw [List.getElem?_append_right (Nat.le_add_right _ _), Nat.add_sub_cancel_left,
      List.getElem?_append_left hl]
  rw [encode_append, encode_append]
  refine .comment hd (hinside (l := 0) (by omega)) (hinside (l := 1) (by omega)) (by omega) ?_ ?_
    (.nil ?_)
  · intro l hlow hhigh
    obtain ⟨l, rfl⟩ := Nat.exists_eq_add_of_le hlow
    rw [hinside (by omega)]
    intro hfeed
    exact hline (lineFeed_mem_encode.mp (List.mem_of_getElem? hfeed))
  · obtain rfl | ⟨after, rfl⟩ := hend
    · right
      rw [encode_nil, List.append_nil, List.length_append]
    · left
      rw [List.getElem?_append_right (Nat.le_add_right _ _), Nat.add_sub_cancel_left,
        List.getElem?_append_right (Nat.le_refl _), Nat.sub_self]
      rfl
  · simp only [List.length_append]
    omega

/-- **What the scanner passes over is a gap** in the sense of the bytes of the
text, wherever in the text it stands. -/
theorem Gap.of_read {c : Char} {passed rest : List Char} (before : List Char)
    (h : Piece.read d c (passed ++ rest) = .gap passed.length) :
    Gap d (encode (before ++ (c :: passed ++ rest))) (encode before).length
      ((encode before).length + (encode (c :: passed)).length) := by
  obtain ⟨hblank, rfl⟩ | ⟨hd, rfl, ⟨body, rfl⟩, hline, hend⟩ := Piece.gap_cases h
  · exact .of_blank hblank before rest
  · refine .of_comment hd ?_ before hend
    rw [List.mem_cons, not_or]
    exact ⟨by decide, hline⟩

/-- **A lexeme that the scanner reads covers its bytes.** Its place is the
offset of its first byte, and the text goes on after its last one. -/
theorem Covers.of_read {c : Char} {passed rest : List Char} {kind : TokenKind}
    {tokens : List Token} (before : List Char)
    (h : Piece.read d c (passed ++ rest) = .lexeme kind passed.length)
    (hrest : Covers d (encode (before ++ (c :: passed ++ rest)))
      ((encode before).length + (encode (c :: passed)).length) tokens) :
    Covers d (encode (before ++ (c :: passed ++ rest))) (encode before).length
      (⟨kind, String.ofList (c :: passed), Position.start.after before⟩ :: tokens) := by
  have hplace := Position.after_eq_inBytes before (encode (c :: passed ++ rest))
  rw [← encode_append] at hplace
  have hbytes : bytesOf (String.ofList (c :: passed)) = encode (c :: passed) := by
    rw [bytesOf_eq, String.toList_ofList]
  have hwidth : (String.ofList (c :: passed)).utf8ByteSize = (encode (c :: passed)).length := by
    rw [← length_bytesOf, hbytes]
  rw [hplace]
  refine .next (.nil ?_) rfl ?_ ?_ ?_ ?_
  · show (encode before).length ≤ _
    rw [encode_append, List.length_append]
    exact Nat.le_add_right _ _
  · have hlexeme := Lexeme.ofRead h
    exact hlexeme.kind_ne_eof
  · intro hempty
    have hnil := congrArg String.toList hempty
    rw [String.toList_ofList] at hnil
    cases hnil
  · show List.extract _ (encode before).length ((encode before).length + String.utf8ByteSize _) = _
    rw [hwidth, hbytes]
    exact extract_encode before (c :: passed) rest
  · show Covers d _ ((encode before).length + String.utf8ByteSize _) tokens
    rwa [hwidth]

end Bytes

/-! ## Scanned texts -/

/-- What scanning a text from an offset on gives: tokens that cover the rest
of it, or a character that is refused. -/
def Reports (d : Dialect) (bytes : List UInt8) (offset : Nat) :
    Except CompileError (List Token) → Prop
  | .ok tokens => Covers d bytes offset tokens
  | .error e => Refuses bytes e

namespace Token

/-- **The rest of a text is covered from the place where it begins.** By
induction on the pieces of the rest; for the whole text it is what is reported
about it. -/
theorem scanFrom_reports (d : Dialect) (before cs : List Char) :
    Reports d (encode (before ++ cs)) (encode before).length
      (scanFrom d cs 0 (Position.start.after before)) := by
  -- what was read before moves on with every piece, and the bytes stay the same
  have hmove (before : List Char) (c : Char) (passed rest : List Char) :
      before ++ c :: passed ++ rest = before ++ (c :: passed ++ rest) ∧
        (encode (before ++ c :: passed)).length =
          (encode before).length + (encode (c :: passed)).length := by
    rw [List.append_assoc, encode_append, List.length_append]
    exact ⟨rfl, rfl⟩
  refine scanFrom_induction (d := d)
    (motive := fun cs p result => ∀ before, p = Position.start.after before →
      Reports d (encode (before ++ cs)) (encode before).length result) ?_ ?_ ?_ ?_ cs _ before rfl
  · rintro _ before rfl
    rw [List.append_nil, Position.after_eq_inBytes before [], List.append_nil]
    exact .last (.nil (Nat.le_refl _))
  · rintro _ c passed rest result hread ih before rfl
    have hlater := ih (before ++ c :: passed) (Position.after_append _ _ _).symm
    rw [(hmove before c passed rest).1, (hmove before c passed rest).2] at hlater
    cases result with
    | ok tokens => exact Covers.after_gap (.of_read before hread) hlater
    | error e => exact hlater
  · rintro _ c passed rest kind result hread ih before rfl
    have hlater := ih (before ++ c :: passed) (Position.after_append _ _ _).symm
    rw [(hmove before c passed rest).1, (hmove before c passed rest).2] at hlater
    cases result with
    | ok tokens => exact Covers.of_read before hread hlater
    | error e => exact hlater
  · rintro _ c cs - before rfl
    refine ⟨c, (encode before).length, ?_, ?_⟩
    · have hbytes := extract_encode before [c] cs
      rwa [encode_cons, encode_nil, List.append_nil, String.length_utf8EncodeChar] at hbytes
    · rw [Position.after_eq_inBytes before (encode (c :: cs)), ← encode_append]

/-- **The scanner loses nothing and finds the right places.** The tokens of a
text cover its bytes. If there are none, a character is refused at its
place. -/
theorem scan_covers (d : Dialect) (source : String) :
    (∀ tokens, scan d source = .ok tokens → Covers d (bytesOf source) 0 tokens) ∧
      ∀ e, scan d source = .error e → Refuses (bytesOf source) e := by
  have hreports : Reports d (bytesOf source) 0 (scan d source) := by
    rw [bytesOf_eq]
    exact scanFrom_reports d [] source.toList
  constructor
  · intro tokens h
    rwa [h] at hreports
  · intro e h
    rwa [h] at hreports

/-- Characters of several bytes stand in a comment before a token, and one of
them is refused on the next line. -/
theorem scan_covers_comment :
    (∃ tokens, scan .maple "// é€\n\tx" = .ok tokens ∧
      tokens = [⟨.identifier, "x", ⟨10, 2, 2⟩⟩, .eof ⟨11, 2, 3⟩] ∧
      Covers .maple (bytesOf "// é€\n\tx") 0 tokens) ∧
    ∃ e, scan .maple "x // é\n é" = .error e ∧
      e = .atSpan (.illegalCharacter 'é') ⟨9, 2, 2, 2⟩ ∧ Refuses (bytesOf "x // é\n é") e := by
  have hok : scan .maple "// é€\n\tx" =
      .ok [⟨.identifier, "x", ⟨10, 2, 2⟩⟩, .eof ⟨11, 2, 3⟩] := by decide +kernel
  have herror : scan .maple "x // é\n é" =
      .error (.atSpan (.illegalCharacter 'é') ⟨9, 2, 2, 2⟩) := by decide +kernel
  exact ⟨⟨_, hok, rfl, (scan_covers _ _).1 _ hok⟩, ⟨_, herror, rfl, (scan_covers _ _).2 _ herror⟩⟩

end Token

end MapleCompiler
