import MapleCompiler.Program.Equality
import MapleCompiler.Proofs.Compilation.Layout
import MapleCompiler.Proofs.Token.LongestMatch

/-!
# Moving a text to the full dialect

A text of the small dialect becomes one of the full dialect when its two own keywords are
spelled as there: `around` is `loop` and `return` is `rtn`. Whatever else the small dialect
has, the full one has too, with one exception: a name must not be a keyword there.

The moved text is written with one blank between any two words, so that no comment and no
longer mark can arise between them. It is read as tokens of the same kinds
(`Token.scan_migratedText`), and these are read in lockstep with those of the first text
(`Pairing.migration`). Main statement: `compileUnit_migratedText`.
-/

namespace MapleCompiler

/-- A word of the small dialect in the full one. -/
def migratedWord (x : String) : String :=
  if x = "around" then "loop" else if x = "return" then "rtn" else x

/-- **The words of some tokens as a text of the full dialect.** -/
def migratedText (tokens : List Token) : String :=
  " ".intercalate ((tokens.filter (·.kind != .eof)).map fun t => migratedWord t.lexeme)

/-! ## Words -/

/-- The tables of the small dialect are part of those of the full one, up to
two spellings. -/
theorem Dialect.keyword?_maple_of_legacy {x : String} {kind : TokenKind}
    (h : Dialect.legacy.keyword? x = some kind) (haround : x ≠ "around") (hreturn : x ≠ "return") :
    Dialect.maple.keyword? x = some kind := by
  have htable : ∀ entry ∈ Dialect.legacy.keywords, entry.1 ≠ "around" → entry.1 ≠ "return" →
      Dialect.maple.keyword? entry.1 = some entry.2 := by decide +kernel
  refine htable (x, kind) ?_ haround hreturn
  obtain ⟨before, after, hsplit, -⟩ := List.lookup_eq_some_iff.mp h
  rw [hsplit]
  simp

/-- A word with the same spelling in both dialects. A name may become a
reserved word in the full one, and then it is left out. -/
theorem Pattern.maple_of_legacy {kind : TokenKind} {text : List Char}
    (h : Pattern .legacy kind text)
    (hname : kind = .identifier → Dialect.maple.keyword? (String.ofList text) = none)
    (haround : String.ofList text ≠ "around") (hreturn : String.ofList text ≠ "return") :
    Pattern .maple kind text := by
  cases h with
  | digits hne hwhole => exact .digits hne hwhole
  | decimal hne hwhole hne' hfraction => exact .decimal hne hwhole hne' hfraction
  | libraryName hd => cases hd
  | qualifier hd => cases hd
  | @word c cs hc hcs =>
    have hsame : Dialect.maple.keyword? (String.ofList (c :: cs)) =
        Dialect.legacy.keyword? (String.ofList (c :: cs)) := by
      cases hlegacy : Dialect.legacy.keyword? (String.ofList (c :: cs)) with
      | none => exact hname (by rw [hlegacy]; rfl)
      | some kind => exact Dialect.keyword?_maple_of_legacy hlegacy haround hreturn
    rw [← hsame]
    exact .word hc hcs
  | mark h =>
    have hmarks : ∀ m ∈ Dialect.legacy.marks, m ∈ Dialect.maple.marks := by decide +kernel
    exact .mark (hmarks _ h)

/-- **Words keep their kinds** when they move: the two that are spelled
differently are replaced, and all others stay. -/
theorem Lexeme.migrated {kind : TokenKind} {x : String} (h : Lexeme .legacy kind x)
    (hname : kind = .identifier → Dialect.maple.keyword? x = none) :
    Lexeme .maple kind (migratedWord x) := by
  unfold migratedWord
  split
  · next hx =>
    subst hx
    rw [h.unique (by decide +kernel : Lexeme .legacy .loop "around")]
    decide +kernel
  next haround =>
  split
  · next hx =>
    subst hx
    rw [h.unique (by decide +kernel : Lexeme .legacy .rtn "return")]
    decide +kernel
  next hreturn =>
  rw [← x.ofList_toList] at h hname haround hreturn ⊢
  exact (h.pattern.maple_of_legacy hname haround hreturn).lexeme

/-! ## Tokens -/

theorem Token.scan_eq_words {d : Dialect} {source : String} {tokens : List Token}
    (h : scan d source = .ok tokens) :
    ∃ words p, tokens = words ++ [.eof p] ∧ ∀ t ∈ words, Lexeme d t.kind t.lexeme := by
  refine scanFrom_induction (d := d) (motive := fun _ _ result =>
    ∀ tokens : List Token, result = .ok tokens → ∃ (words : List Token) (p : Position),
      tokens = words ++ [.eof p] ∧ ∀ t ∈ words, Lexeme d t.kind t.lexeme)
    ?_ ?_ ?_ ?_ source.toList .start tokens h
  · rintro p _ ⟨⟩
    exact ⟨[], p, rfl, nofun⟩
  · intro p c passed rest result _ ih
    exact ih
  · intro p c passed rest kind result hread ih tokens h
    cases result with
    | error e => cases h
    | ok rest =>
      obtain ⟨words, q, rfl, hwords⟩ := ih rest rfl
      obtain rfl := Except.ok.inj h
      have hlexeme := Lexeme.ofRead hread
      rw [List.take_left] at hlexeme
      exact ⟨_ :: words, q, rfl, List.forall_mem_cons.mpr ⟨hlexeme, hwords⟩⟩
  · rintro p c cs _ _ ⟨⟩

/-- **Counterparts in a moved text**: of the same kind, and with the same
lexeme unless it is one of the two keywords. -/
def Token.Migrated (t t' : Token) : Prop :=
  t'.kind = t.kind ∧ (t.kind ≠ .loop → t.kind ≠ .rtn → t'.lexeme = t.lexeme)

namespace Token.Migrated

variable {t t' : Token}

theorem lexeme_eq (h : t.Migrated t')
    (hkind : t.kind.isOperand = true ∨ t.kind = .libraryName ∨ t.kind = .qualifier) :
    t'.lexeme = t.lexeme := by
  refine h.2 ?_ ?_
  all_goals
    intro hk
    rw [hk] at hkind
    exact absurd hkind (by decide)

/-- A lexeme of the full dialect that is the moved word of `t` has the kind of
`t`, since a text is a lexeme of one kind only. -/
theorem of_lexeme (ht : Lexeme .legacy t.kind t.lexeme)
    (hmoved : Lexeme .maple t.kind (migratedWord t.lexeme)) (ht' : Lexeme .maple t'.kind t'.lexeme)
    (h : t'.lexeme = migratedWord t.lexeme) : t.Migrated t' := by
  rw [h] at ht'
  refine ⟨ht'.unique hmoved, fun hloop hrtn => ?_⟩
  have haround : t.lexeme ≠ "around" := fun hx =>
    hloop ((hx ▸ ht).unique (by decide +kernel))
  have hreturn : t.lexeme ≠ "return" := fun hx =>
    hrtn ((hx ▸ ht).unique (by decide +kernel))
  rw [h, migratedWord, if_neg haround, if_neg hreturn]

theorem of_lexemes {words words' : List Token}
    (hwords : ∀ t ∈ words, Lexeme .legacy t.kind t.lexeme ∧
      Lexeme .maple t.kind (migratedWord t.lexeme))
    (hwords' : ∀ t ∈ words', Lexeme .maple t.kind t.lexeme)
    (h : words'.map Token.lexeme = words.map fun t => migratedWord t.lexeme) :
    List.Forall₂ Migrated words words' := by
  induction words generalizing words' with
  | nil =>
    rw [List.map_nil, List.map_eq_nil_iff] at h
    rw [h]
    exact .nil
  | cons t words ih =>
    obtain ⟨t', rest', rfl, hlexeme, hrest⟩ := List.map_eq_cons_iff.mp h
    obtain ⟨⟨ht, hmoved⟩, hwords⟩ := List.forall_mem_cons.mp hwords
    obtain ⟨ht', hwords'⟩ := List.forall_mem_cons.mp hwords'
    exact .cons (of_lexeme ht hmoved ht' hlexeme) (ih hwords hwords' hrest)

end Token.Migrated

/-- The readings of a text of the small dialect and of the moved text. -/
def Pairing.migration : Pairing where
  dialect := .legacy
  dialect' := .maple
  rename := id
  place _ := ⟨0, 0, 0, 0⟩
  token := Token.Migrated
  text _ _ := True
  error e e' := e'.fault.code = e.fault.code ∧ e'.library? = e.library?
  warning w w' := w'.unplaced = w.unplaced
  rename_injective := Function.injective_id
  rename_zero := id_eq _
  kind_eq h := h.1
  lexeme_eq h hkind := h.lexeme_eq (.inl hkind)
  classify_eq h hkind := congrArg _ (h.lexeme_eq (.inl hkind))
  fixed_eq h hkind := h.lexeme_eq (hkind.imp_left TokenKind.isOperand_of_isLiteral)
  place_eq _ _ := rfl
  text_rename _ := trivial
  text_lexeme _ := trivial
  error_at _ hfault _ _ _ := ⟨hfault.code_eq _ _ _ _, rfl⟩
  error_branch h hend := by
    simp only [CompileError.unexpected, h.1, if_neg hend]
    exact ⟨rfl, rfl⟩
  warning_restore h hkind := by
    rw [h.lexeme_eq (.inl (by rw [hkind]; rfl))]
    rfl

/-- **A moved text is read as the same kinds of tokens**, in the same order.
Its words are lexemes with blanks between them, so they are read back. -/
theorem Token.scan_migratedText {source : String} {tokens : List Token}
    (h : scan .legacy source = .ok tokens)
    (hnames : ∀ t ∈ tokens, t.kind = .identifier → Dialect.maple.keyword? t.lexeme = none) :
    ∃ tokens', scan .maple (migratedText tokens) = .ok tokens' ∧
      List.Forall₂ Migrated tokens tokens' := by
  obtain ⟨words, p, rfl, hwords⟩ := scan_eq_words h
  have hfilter : (words ++ [Token.eof p]).filter (·.kind != .eof) = words := by
    rw [List.filter_append, List.filter_eq_self.mpr fun t ht =>
      bne_iff_ne.mpr (hwords t ht).kind_ne_eof]
    exact List.append_nil words
  have hmoved : ∀ t ∈ words, Lexeme .maple t.kind (migratedWord t.lexeme) := fun t ht =>
    (hwords t ht).migrated (hnames t (List.mem_append.mpr (.inl ht)))
  have hspells : Spells .maple (scan .maple (migratedText (words ++ [Token.eof p])))
      (words.map fun t => migratedWord t.lexeme) := by
    unfold migratedText
    rw [hfilter]
    refine spells_intercalate ?_ .start
    rintro _ hx
    obtain ⟨t, ht, rfl⟩ := List.mem_map.mp hx
    exact ⟨t.kind, hmoved t ht⟩
  obtain ⟨words', q, hscan', hlexemes, hwords'⟩ := hspells
  refine ⟨_, hscan', List.rel_append ?_ (.cons ⟨rfl, fun _ _ => rfl⟩ .nil)⟩
  exact Migrated.of_lexemes (fun t ht => ⟨hwords t ht, hmoved t ht⟩) hwords' hlexemes

/-- **Moving a text to the full dialect keeps its meaning.** If no name of it
is a keyword there, the moved text is compiled to the same code, libraries and
warnings; or neither text is compiled, and the errors have the same code. -/
theorem compileUnit_migratedText (loader : Loader Id) (mode : Cpp.Mode) (source : String)
    (tokens : List Token) (h : Token.scan .legacy source = .ok tokens)
    (hnames : ∀ t ∈ tokens, t.kind = .identifier → Dialect.maple.keyword? t.lexeme = none) :
    CompiledAlike (fun e e' => e'.fault.code = e.fault.code ∧ e'.library? = e.library?)
      (compileUnit loader .legacy mode source)
      (compileUnit loader .maple mode (migratedText tokens)) := by
  obtain ⟨tokens', hscan', htokens⟩ := Token.scan_migratedText h hnames
  refine compiledAlike_of_paired .migration rfl (fun _ _ h => h) (fun e e' he => ?_) loader mode
    h hscan' htokens
  exact ⟨congrArg (·.1.code) he, congrArg Prod.snd he⟩

/-- A function and a loop, with both keywords that are spelled differently.
Both texts compile, to the same code. -/
theorem compileUnit_migratedText_loop :
    let source := "fnc i32 f : :\nreturn 1\nend\naround i 2\nroll"
    let tokens : List Token :=
      [⟨.fnc, "fnc", ⟨0, 1, 1⟩⟩, ⟨.type .i32, "i32", ⟨4, 1, 5⟩⟩, ⟨.identifier, "f", ⟨8, 1, 9⟩⟩,
        ⟨.colon, ":", ⟨10, 1, 11⟩⟩, ⟨.colon, ":", ⟨12, 1, 13⟩⟩, ⟨.rtn, "return", ⟨14, 2, 1⟩⟩,
        ⟨.number, "1", ⟨21, 2, 8⟩⟩, ⟨.endWord, "end", ⟨23, 3, 1⟩⟩, ⟨.loop, "around", ⟨27, 4, 1⟩⟩,
        ⟨.identifier, "i", ⟨34, 4, 8⟩⟩, ⟨.number, "2", ⟨36, 4, 10⟩⟩, ⟨.roll, "roll", ⟨38, 5, 1⟩⟩,
        .eof ⟨42, 5, 5⟩]
    Token.scan .legacy source = .ok tokens ∧
      (∀ t ∈ tokens, t.kind = .identifier → Dialect.maple.keyword? t.lexeme = none) ∧
      migratedText tokens = "fnc i32 f : : rtn 1 end loop i 2 roll" ∧
      Program.ofText .legacy false source = .ok (⟨[.function ⟨.i32, "f", []⟩ [.giveBack (some "1")],
        .loop "i" "0" "2" [], .endLoop]⟩, []) ∧
      ∃ unit unit', compileUnit (Shelf.pureLoader []) .legacy .program source = .ok unit ∧
        compileUnit (Shelf.pureLoader []) .maple .program (migratedText tokens) = .ok unit' ∧
        unit'.code = unit.code ∧ unit'.libraries = [] ∧ unit'.warnings = [] := by
  intro source tokens
  have hscan : Token.scan .legacy source = .ok tokens := by decide +kernel
  have hnames : ∀ t ∈ tokens, t.kind = .identifier →
      Dialect.maple.keyword? t.lexeme = none := by decide +kernel
  have halike :=
    compileUnit_migratedText (Shelf.pureLoader []) .program source tokens hscan hnames
  have hrest : (compileUnit (Shelf.pureLoader []) .maple .program
      (migratedText tokens)).toOption.map (fun unit => (unit.libraries, unit.warnings)) =
        some ([], []) := by decide +kernel
  refine ⟨hscan, hnames, by decide +kernel, by decide +kernel, ?_⟩
  generalize compileUnit (Shelf.pureLoader []) .legacy .program source = result,
    compileUnit (Shelf.pureLoader []) .maple .program (migratedText tokens) = result'
    at halike hrest
  cases halike with
  | error _ => cases hrest
  | @ok unit unit' hcode _ _ =>
    obtain ⟨hlibraries, hwarnings⟩ := Prod.mk.inj (Option.some.inj hrest)
    exact ⟨unit, unit', rfl, rfl, hcode, hlibraries, hwarnings⟩

end MapleCompiler
