import MapleCompiler.Proofs.Acceptance.Judgement
import MapleCompiler.Proofs.Token.Lexeme

/-!
# The words of a dialect

The lexemes of a dialect are a vocabulary. Most kinds have one fixed text in
it, a reserved word or a mark (`Dialect.text`); the others are numbers, names
and library names, whose texts are free within their class. A kind that has a
lexeme at all has its fixed text among them, so whoever meets a kind can write
it down again.
-/

namespace MapleCompiler

namespace Lexeme

variable {d : Dialect} {kind : TokenKind} {x : String}

instance (d : Dialect) (kind : TokenKind) (x : String) : Decidable (Lexeme d kind x) :=
  match h : x.toList with
  | [] => .isFalse fun ⟨_, _, hx, _⟩ => nomatch h.symm.trans hx
  | c :: cs =>
    if hread : Piece.read d c cs = .lexeme kind cs.length then .isTrue ⟨c, cs, h, hread⟩
    else .isFalse fun ⟨_, _, hx, hread'⟩ => by
      obtain ⟨rfl, rfl⟩ := List.cons.inj (h.symm.trans hx)
      exact hread hread'

end Lexeme

/-! ## Kinds -/

/-- The kinds of the reserved words and marks of a dialect. -/
def Dialect.kinds (d : Dialect) : List TokenKind := d.keywords.map Prod.snd ++ d.marks.map Prod.snd

/-- **The text of a kind**: its reserved word, or its first mark. -/
def Dialect.text (d : Dialect) (kind : TokenKind) : String :=
  match d.spelling? kind with
  | some word => word
  | none =>
    match d.marks.find? (·.2 == kind) with
    | some (mark, _) => String.ofList mark
    | none => ""

/-- Whether a kind has many texts. -/
def TokenKind.isFree : TokenKind → Bool
  | .number | .identifier | .libraryName | .qualifier => true
  | _ => false

namespace Piece

variable {d : Dialect} {c : Char} {cs : List Char} {kind : TokenKind} {more : Nat}

theorem kind_of_number (h : number cs = .lexeme kind more) : kind = .number := by
  unfold number at h
  dsimp only at h
  split at h
  · split at h <;> exact (Piece.lexeme.inj h).1.symm
  · exact (Piece.lexeme.inj h).1.symm

theorem kind_of_word (h : word d c cs = .lexeme kind more) :
    kind = .identifier ∨ kind ∈ d.keywords.map Prod.snd := by
  obtain ⟨rfl, -⟩ := Piece.lexeme.inj h
  cases hkeyword : d.keyword? (String.ofList (c :: cs.take (runLength isWordChar cs))) with
  | none => exact .inl rfl
  | some k =>
    right
    obtain ⟨before, after, htable, -⟩ := List.lookup_eq_some_iff.mp hkeyword
    rw [htable]
    simp

theorem kind_of_mark (h : mark d c cs = .lexeme kind more) : kind ∈ d.marks.map Prod.snd := by
  unfold mark at h
  split at h
  · next text kind' hfind =>
    obtain ⟨rfl, -⟩ := Piece.lexeme.inj h
    exact List.mem_map.mpr ⟨_, List.mem_of_find?_eq_some hfind, rfl⟩
  · cases h

theorem libraryName_eq_lexeme (h : libraryName cs = .lexeme kind cs.length) :
    ∃ word, word ≠ [] ∧ (∀ c ∈ word, isWordChar c = true) ∧
      (kind = .libraryName ∧ cs = word ∨ kind = .qualifier ∧ cs = word ++ [':', ':']) := by
  obtain ⟨word, after, rfl, hword, hafter⟩ := exists_run isWordChar cs
  rw [libraryName_append hword hafter] at h
  split at h
  · cases h
  next hne =>
  have hne : word ≠ [] := fun hnil => hne (by rw [hnil]; rfl)
  refine ⟨word, hne, hword, ?_⟩
  unfold libraryBefore at h
  split at h
  · next after =>
    obtain ⟨rfl, hlength⟩ := Piece.lexeme.inj h
    have : after = [] := by
      rw [List.length_append] at hlength
      simpa using hlength
    exact .inr ⟨rfl, by rw [this]⟩
  · obtain ⟨rfl, hlength⟩ := Piece.lexeme.inj h
    have : after = [] := by
      rw [List.length_append] at hlength
      exact List.eq_nil_of_length_eq_zero (by omega)
    exact .inl ⟨rfl, by rw [this, List.append_nil]⟩

/-- **The kinds of lexemes**: numbers, library names, names, reserved words
and marks. The last two are in the tables of the dialect. -/
theorem kind_of_read (h : read d c cs = .lexeme kind cs.length) :
    kind = .number ∨ (c = '@' ∧ libraryName cs = .lexeme kind cs.length) ∨ kind = .identifier ∨
      kind ∈ d.kinds := by
  unfold read at h
  split at h
  · cases h
  split at h
  · cases h
  split at h
  · exact .inl (kind_of_number h)
  split at h
  · next hat =>
    have hc : c = '@' := by simpa using (Bool.and_eq_true_iff.mp hat).1
    exact .inr (.inl ⟨hc, h⟩)
  split at h
  · obtain hid | hkeyword := kind_of_word h
    · exact .inr (.inr (.inl hid))
    · exact .inr (.inr (.inr (List.mem_append.mpr (.inl hkeyword))))
  · exact .inr (.inr (.inr (List.mem_append.mpr (.inr (kind_of_mark h)))))

end Piece

namespace Lexeme

variable {d : Dialect} {kind : TokenKind} {x : String}

theorem fixed_of_mem_kinds (h : kind ∈ d.kinds) : kind.isFree = false ∧ kind ≠ .eof := by
  revert kind
  cases d <;> decide +kernel

/-- A kind without free texts is in the tables, so its text can be found
there. -/
theorem mem_kinds (h : Lexeme d kind x) (hfree : kind.isFree = false) : kind ∈ d.kinds := by
  obtain ⟨c, cs, -, hread⟩ := h
  obtain rfl | ⟨-, hlibrary⟩ | rfl | hmem := Piece.kind_of_read hread
  · cases hfree
  · obtain ⟨_, -, -, ⟨rfl, -⟩ | ⟨rfl, -⟩⟩ := Piece.libraryName_eq_lexeme hlibrary <;> cases hfree
  · cases hfree
  · exact hmem

theorem kind_ne_eof (h : Lexeme d kind x) : kind ≠ .eof := by
  rintro rfl
  exact (fixed_of_mem_kinds (h.mem_kinds rfl)).2 rfl

/-- **The text of a kind of the tables is a lexeme of that kind.** -/
theorem text (h : kind ∈ d.kinds) : Lexeme d kind (d.text kind) := by
  revert kind
  cases d <;> decide +kernel

/-- What the small dialect writes, both write: each kind of its tables is in
those of the full one too, where it may have another text. -/
theorem shared (h : kind ∈ Dialect.legacy.kinds) : Lexeme d kind (d.text kind) := by
  refine text ?_
  revert kind
  cases d <;> decide +kernel

/-! ## Names -/

theorem identifier_word (h : Lexeme d .identifier x) : ∀ c ∈ x.toList, isWordChar c = true := by
  obtain ⟨c, cs, hx, hread⟩ := h
  rw [hx]
  unfold Piece.read at hread
  split at hread
  · cases hread
  split at hread
  · cases hread
  split at hread
  · cases Piece.kind_of_number hread
  split at hread
  · obtain ⟨_, -, -, ⟨hk, -⟩ | ⟨hk, -⟩⟩ := Piece.libraryName_eq_lexeme hread <;> cases hk
  split at hread
  · next hstart =>
    have hlength : (cs.takeWhile isWordChar).length = cs.length := (Piece.lexeme.inj hread).2
    have hrun : cs.takeWhile isWordChar = cs := (List.takeWhile_prefix _).eq_of_length hlength
    have hcs : ∀ c' ∈ cs, isWordChar c' = true := by
      rw [← hrun]
      exact List.all_eq_true.mp List.all_takeWhile
    have hc : isWordChar c = true := by
      unfold isWordStart at hstart
      unfold isWordChar Char.isAlphanum
      rw [← Bool.or_assoc, hstart, Bool.true_or]
    exact List.forall_mem_cons.mpr ⟨hc, hcs⟩
  · have hmem : TokenKind.identifier ∈ d.kinds :=
      List.mem_append.mpr (.inr (Piece.kind_of_mark hread))
    cases (fixed_of_mem_kinds hmem).1

/-! ## Library names -/

/-- A lexeme that names a library is an `@` sign before a word, and two colons
come after it if it is a qualifier. -/
theorem library_word (h : Lexeme d kind x) (hkind : kind = .libraryName ∨ kind = .qualifier) :
    ∃ word, word ≠ [] ∧ (∀ c ∈ word, isWordChar c = true) ∧
      (kind = .libraryName ∧ x = String.ofList ('@' :: word) ∨
        kind = .qualifier ∧ x = String.ofList ('@' :: (word ++ [':', ':']))) := by
  obtain ⟨c, cs, hx, hread⟩ := h
  have hx : x = String.ofList (c :: cs) := by rw [← hx, String.ofList_toList]
  obtain rfl | ⟨rfl, hlibrary⟩ | rfl | hmem := Piece.kind_of_read hread
  · obtain hk | hk := hkind <;> cases hk
  · obtain ⟨word, hne, hword, ⟨rfl, rfl⟩ | ⟨rfl, rfl⟩⟩ := Piece.libraryName_eq_lexeme hlibrary
    · exact ⟨_, hne, hword, .inl ⟨rfl, hx⟩⟩
    · exact ⟨_, hne, hword, .inr ⟨rfl, hx⟩⟩
  · obtain hk | hk := hkind <;> cases hk
  · have hfixed := (fixed_of_mem_kinds hmem).1
    obtain rfl | rfl := hkind <;> cases hfixed

/-- The `@` sign before a word is dropped, and nothing else: a word has no
such sign. -/
theorem dropAtSigns_word {word : List Char} (hne : word ≠ [])
    (hword : ∀ c ∈ word, isWordChar c = true) (after : List Char) :
    dropAtSigns (String.ofList ('@' :: (word ++ after))) = String.ofList (word ++ after) := by
  obtain ⟨c, word, rfl⟩ := List.exists_cons_of_ne_nil hne
  have hc : ¬(c == '@') = true := by
    intro heq
    have := hword c List.mem_cons_self
    rw [beq_iff_eq.mp heq] at this
    cases this
  unfold dropAtSigns
  rw [String.toList_ofList, List.dropWhile_cons, if_pos (by rfl), List.cons_append,
    List.dropWhile_cons, if_neg hc]

/-- No pair of colons stands at the end of a word, so nothing is dropped from
it. -/
theorem dropColonPairs_word {word : List Char} (hword : ∀ c ∈ word, isWordChar c = true) :
    dropColonPairs word.reverse = word.reverse := by
  unfold dropColonPairs
  split
  · next rest hcolons =>
    have hmem : ':' ∈ word := by
      rw [← List.mem_reverse, hcolons]
      exact List.mem_cons_self
    cases hword _ hmem
  · rfl

/-- **A library name** is written with an `@` sign before it, so the lexeme
can be found from the name. -/
theorem libraryName_eq (h : Lexeme d .libraryName x) : "@" ++ dropAtSigns x = x := by
  obtain ⟨word, hne, hword, ⟨-, rfl⟩ | ⟨hk, -⟩⟩ := h.library_word (.inl rfl)
  · have hdrop := dropAtSigns_word hne hword []
    rw [List.append_nil] at hdrop
    rw [hdrop]
    exact String.ofList_append.symm
  · cases hk

/-- **A qualifier** is written with an `@` sign before the library and two
colons after it. -/
theorem qualifier_eq (h : Lexeme d .qualifier x) : "@" ++ qualifiedLibrary x ++ "::" = x := by
  obtain ⟨word, hne, hword, ⟨hk, -⟩ | ⟨-, rfl⟩⟩ := h.library_word (.inr rfl)
  · cases hk
  · unfold qualifiedLibrary
    rw [dropAtSigns_word hne hword, String.toList_ofList, List.reverse_append]
    show "@" ++ String.ofList (dropColonPairs word.reverse).reverse ++ "::" = _
    rw [dropColonPairs_word hword, List.reverse_reverse]
    show String.ofList ['@'] ++ String.ofList word ++ String.ofList [':', ':'] = _
    rw [← String.ofList_append, ← String.ofList_append]
    rfl

/-! ## Numbers -/

/-- **A run of digits is a number**, however many zeros it begins with. -/
theorem digits {c : Char} {cs : List Char} (hdigits : ∀ c' ∈ c :: cs, c'.isDigit = true) :
    Lexeme d .number (String.ofList (c :: cs)) := by
  have hc := hdigits c List.mem_cons_self
  have hother {c' : Char} (h : c'.isDigit = false) : c ≠ c' := by
    rintro rfl
    rw [hc] at h
    cases h
  have hblank : ¬isBlank c = true := by
    intro hb
    rw [Piece.isDigit_of_isBlank c hb] at hc
    cases hc
  have hcomment : ¬Piece.startsComment d c cs = true := by
    simp [Piece.startsComment, hother (show Char.isDigit '/' = false from rfl)]
  refine ⟨c, cs, String.toList_ofList, ?_⟩
  rw [Piece.read, if_neg hblank, if_neg hcomment, if_pos hc]
  have hwhole := Piece.number_whole (fun c' hc' => hdigits c' (.tail c hc')) stops_nil
  rwa [List.append_nil] at hwhole

theorem toString (n : Nat) : Lexeme d .number (toString n) := by
  have hdigits : ∀ c ∈ Nat.toDigits 10 n, c.isDigit = true := fun c hc =>
    Nat.isDigit_of_mem_toDigits (by decide) (by decide) hc
  obtain ⟨c, cs, hcs⟩ := List.exists_cons_of_ne_nil (@Nat.toDigits_ne_nil n 10)
  have htext : ToString.toString n = String.ofList (c :: cs) := by
    rw [← hcs]
    exact Nat.repr_eq_ofList_toDigits
  rw [htext]
  exact digits (hcs ▸ hdigits)

end Lexeme

/-- **The vocabulary of a dialect**: its lexemes. -/
def Dialect.vocabulary (d : Dialect) : Vocabulary := ⟨Lexeme d, by cases d <;> decide +kernel⟩

theorem Lexeme.ofHas {d : Dialect} {kind : TokenKind} (h : d.vocabulary.Has kind)
    (hfree : kind.isFree = false) : Lexeme d kind (d.text kind) := by
  obtain ⟨x, hx⟩ := h
  exact .text (hx.mem_kinds hfree)

theorem Lexeme.ofLibrary {d : Dialect} {name : String} (h : d.vocabulary.Library name) :
    Lexeme d .libraryName ("@" ++ name) := by
  obtain ⟨x, hx, rfl⟩ := h
  rw [hx.libraryName_eq]
  exact hx

/-! ## Texts of words -/

namespace Token

variable {d : Dialect}

/-- **What was scanned are the lexemes `xs`**, and the end of the text. -/
def Spells (d : Dialect) (scanned : Except CompileError (List Token)) (xs : List String) : Prop :=
  ∃ tokens q, scanned = .ok (tokens ++ [.eof q]) ∧ tokens.map Token.lexeme = xs ∧
    ∀ t ∈ tokens, Lexeme d t.kind t.lexeme

theorem Spells.cons {kind : TokenKind} {x : String} {rest : List Char} {p : Position}
    {xs : List String} (hx : Lexeme d kind x) (hrest : Stops rest)
    (h : Spells d (scanFrom d rest 0 (p.after x.toList)) xs) :
    Spells d (scanFrom d (x.toList ++ rest) 0 p) (x :: xs) := by
  obtain ⟨tokens, q, hscan, hlexemes, hkinds⟩ := h
  refine ⟨⟨kind, x, p⟩ :: tokens, q, ?_, by rw [List.map_cons, hlexemes],
    List.forall_mem_cons.mpr ⟨hx, hkinds⟩⟩
  rw [scanFrom_lexeme hx hrest, hscan]
  rfl

/-- **Lexemes with blanks between them are read back**, in their order. By
induction on the lexemes; each of them stops before its blank. -/
theorem spells_intercalate {xs : List String} (h : ∀ x ∈ xs, ∃ kind, Lexeme d kind x)
    (p : Position) : Spells d (scanFrom d (" ".intercalate xs).toList 0 p) xs := by
  induction xs generalizing p with
  | nil => exact ⟨[], p, rfl, rfl, nofun⟩
  | cons x xs ih =>
    obtain ⟨⟨kind, hx⟩, hxs⟩ := List.forall_mem_cons.mp h
    cases xs with
    | nil =>
      rw [String.intercalate_singleton, ← List.append_nil x.toList]
      exact .cons hx stops_nil ⟨[], _, rfl, rfl, nofun⟩
    | cons y ys =>
      rw [String.intercalate_cons_cons, String.toList_append, String.toList_append,
        List.append_assoc]
      refine .cons hx (stops_cons rfl _) ?_
      show Spells d (scanFrom d (' ' :: (" ".intercalate (y :: ys)).toList) 0 _) (y :: ys)
      rw [scanFrom_blank rfl]
      exact ih hxs _

end Token

end MapleCompiler
