import MapleCompiler.Proofs.Compilation.Migration
import MapleCompiler.Proofs.Reading.Names

/-!
# Two recognisers of numbers

Numbers are recognised twice. The scanner takes digits from a text as long as they come and
looks two characters ahead for a fraction. Later the text of an operand is cut at its first
point to tell its class, and an operand without a class is taken for a name. The second
decides about what the first has made, so the two must not differ.

Neither is compared with the other here. Both are compared with the shape of the text:
digits, or digits, a point and digits. Main statement: `Token.numbers_agree`.
-/

namespace MapleCompiler

/-- Whether a class is one of numbers. -/
def Literal.isNumber : Literal → Bool
  | .bit | .integer | .decimal => true
  | .boolean => false

variable {d : Dialect} {kind : TokenKind} {x : String}

namespace Lexeme

/-- A number is digits, perhaps with a fraction, and so it has the class of a
number. -/
theorem exists_isNumber (h : Lexeme d .number x) :
    ∃ literal, literal.isNumber = true ∧ Literal.classify x = some literal := by
  obtain ⟨c, cs, rfl, hc, hnumber⟩ | hkeyword := h.number_or_keyword rfl
  · obtain ⟨whole, hwhole, rfl | ⟨fraction, hne, hfraction, rfl⟩⟩ := Piece.number_eq_lexeme hnumber
    · obtain hclass | hclass := Literal.classify_digits (List.cons_ne_nil c cs)
        (List.forall_mem_cons.mpr ⟨hc, hwhole⟩)
      · exact ⟨_, rfl, hclass⟩
      · exact ⟨_, rfl, hclass⟩
    · exact ⟨_, rfl, Literal.classify_fraction (List.cons_ne_nil c whole)
        (List.forall_mem_cons.mpr ⟨hc, hwhole⟩) hne hfraction⟩
  · have htable : ∀ e ∈ d.keywords, e.2 ≠ .number := by cases d <;> decide
    exact absurd rfl (htable _ hkeyword)

/-- A text with the class of a number is scanned as one, in both dialects:
digits, with a fraction or without, are a pattern of each. -/
theorem of_isNumber {literal : Literal} (hnumber : literal.isNumber = true)
    (h : Literal.classify x = some literal) : Lexeme d .number x := by
  rw [← x.ofList_toList]
  refine Pattern.lexeme ?_
  obtain ⟨rfl, -⟩ | ⟨-, hne, hdigits⟩ | ⟨-, whole, fraction, hx, hne, hwhole, hne', hfraction⟩ :=
    Literal.classify_cases h
  · cases hnumber
  · exact .digits hne hdigits
  · rw [hx]
    exact .decimal hne hwhole hne' hfraction

end Lexeme

namespace Token

/-- **A text that is scanned as one token** is a lexeme, and a lexeme is
scanned as one token, with the end mark behind it. -/
theorem scan_eq_single :
    (scan d x).map (List.map unplaced) = .ok [(kind, x), (.eof, "")] ↔ Lexeme d kind x := by
  constructor
  · intro h
    cases hscan : scan d x with
    | error e =>
      rw [hscan] at h
      cases h
    | ok tokens =>
      obtain ⟨words, p, rfl, hwords⟩ := scan_eq_words hscan
      rw [hscan] at h
      have hmap : (words ++ [eof p]).map unplaced = [(kind, x)] ++ [(.eof, "")] :=
        Except.ok.inj h
      rw [List.map_append] at hmap
      obtain ⟨t, rfl, ht⟩ := List.map_eq_singleton_iff.mp (List.append_cancel_right hmap)
      have hlexeme := hwords t List.mem_cons_self
      obtain ⟨hkind, hx⟩ := Prod.mk.inj ht
      rwa [hkind, hx] at hlexeme
  · intro h
    have hscan := scanFrom_lexeme h stops_nil .start
    rw [List.append_nil] at hscan
    rw [scan, hscan]
    rfl

/-- **The two recognisers of numbers agree.** A text is scanned as one number
exactly if it has the class of a number. In the full dialect every literal
that is scanned has a class, and no name has one. -/
theorem numbers_agree :
    (∀ d x, (scan d x).map (List.map unplaced) = .ok [(.number, x), (.eof, "")] ↔
      Literal.classify x = some .bit ∨ Literal.classify x = some .integer ∨
        Literal.classify x = some .decimal) ∧
    ∀ source tokens, scan .maple source = .ok tokens → ∀ t ∈ tokens,
      (t.kind = .number ∨ t.kind = .boolean true ∨ t.kind = .boolean false →
        ∃ literal, Literal.classify t.lexeme = some literal) ∧
      (t.kind = .identifier → Literal.classify t.lexeme = none) := by
  refine ⟨fun d x => ?_, fun source tokens h t ht => ?_⟩
  · rw [scan_eq_single]
    constructor
    · intro hlexeme
      obtain ⟨literal, hnumber, hclass⟩ := hlexeme.exists_isNumber
      cases literal with
      | bit => exact .inl hclass
      | integer => exact .inr (.inl hclass)
      | decimal => exact .inr (.inr hclass)
      | boolean => cases hnumber
    · rintro (hclass | hclass | hclass) <;> exact .of_isNumber rfl hclass
  · have hlexeme (hne : t.kind ≠ .eof) : Lexeme .maple t.kind t.lexeme :=
      lexeme_of_scanFrom h t ht hne
    constructor
    · intro hkind
      have hliteral : t.kind.isLiteral = true := by
        obtain hk | hk | hk := hkind <;> rw [hk] <;> rfl
      refine (hlexeme fun heof => ?_).exists_classify hliteral
      rw [heof] at hliteral
      cases hliteral
    · intro hkind
      have hname := hlexeme (by rw [hkind]; decide)
      rw [hkind] at hname
      exact hname.classify_eq_none

/-- A number with zeros before and behind, and tokens of each of the kinds. -/
theorem numbers_agree_fraction :
    Literal.classify "007.50" = some .decimal ∧
      (scan .legacy "007.50").map (List.map unplaced) = .ok [(.number, "007.50"), (.eof, "")] ∧
    ∃ tokens, scan .maple "1 true false x1" = .ok tokens ∧
      tokens.map unplaced = [(.number, "1"), (.boolean true, "true"), (.boolean false, "false"),
        (.identifier, "x1"), (.eof, "")] ∧
      ∀ t ∈ tokens,
        (t.kind = .number ∨ t.kind = .boolean true ∨ t.kind = .boolean false →
          ∃ literal, Literal.classify t.lexeme = some literal) ∧
        (t.kind = .identifier → Literal.classify t.lexeme = none) := by
  have hclass : Literal.classify "007.50" = some .decimal := by decide +kernel
  have hscan : scan .maple "1 true false x1" =
      .ok [⟨.number, "1", ⟨0, 1, 1⟩⟩, ⟨.boolean true, "true", ⟨2, 1, 3⟩⟩,
        ⟨.boolean false, "false", ⟨7, 1, 8⟩⟩, ⟨.identifier, "x1", ⟨13, 1, 14⟩⟩,
        .eof ⟨15, 1, 16⟩] := by decide +kernel
  exact ⟨hclass, (numbers_agree.1 _ _).mpr (.inr (.inr hclass)), _, hscan, rfl,
    numbers_agree.2 _ _ hscan⟩

end Token

end MapleCompiler
