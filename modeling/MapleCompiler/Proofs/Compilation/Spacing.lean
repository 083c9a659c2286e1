import MapleCompiler.Proofs.Compilation.Migration

/-!
# Writing lexemes with other gaps

What stands between two lexemes is only there to keep them apart. If the lexemes of a text
are written down again, with any blanks between them and, in the full dialect, with
comments among the blanks (`Spacing`), the same tokens are scanned
(`Token.scan_respaced`).

A gap has to begin with a blank: nothing at all would make one lexeme of two, and a comment
right behind the lexeme `/` would begin one character early. It also has to end its
comments, since a comment goes on to the end of its line.
-/

namespace MapleCompiler

/-- Blanks and, in the full dialect, comments with the line feeds that end
them. -/
inductive Filler (d : Dialect) : List Char → Prop
  | nil : Filler d []
  | blank {c : Char} {rest : List Char} (hc : isBlank c = true) (h : Filler d rest) :
      Filler d (c :: rest)
  | comment {body rest : List Char} (hd : d = .maple) (hbody : '\n' ∉ body)
      (h : Filler d rest) : Filler d ('/' :: '/' :: (body ++ '\n' :: rest))

/-- **What may be written between two lexemes**: a blank, and then blanks and
comments. So whatever stands before a comment is a blank. -/
inductive Spacing (d : Dialect) : List Char → Prop
  | mk {c : Char} {rest : List Char} (hc : isBlank c = true) (h : Filler d rest) :
      Spacing d (c :: rest)

/-- **Lexemes with gaps between them**: the first gap after the first lexeme,
and so on. -/
def respaced (gap : Nat → String) : List String → String
  | [] => ""
  | [x] => x
  | x :: y :: rest => x ++ gap 0 ++ respaced (fun i => gap (i + 1)) (y :: rest)

variable {d : Dialect}

/-- The scanner passes over what fills a gap: blanks, and comments up to the
end of their line. -/
theorem Filler.skips {gap : List Char} (h : Filler d gap) (rest : List Char) :
    Skips d gap rest := by
  induction h with
  | nil => exact .nil
  | blank hc _ ih => exact .blank hc ih
  | @comment body gap hd hbody _ ih =>
    exact .comment hd hbody (.inr ⟨gap ++ rest, rfl⟩) (.blank rfl ih)

namespace Spacing

variable {gap : List Char}

theorem skips (h : Spacing d gap) (rest : List Char) : Skips d gap rest := by
  obtain ⟨hc, hfiller⟩ := h
  exact .blank hc (hfiller.skips rest)

theorem stops (h : Spacing d gap) (rest : List Char) : Stops (gap ++ rest) := by
  obtain ⟨hc, -⟩ := h
  exact stops_cons hc _

end Spacing

namespace Token

/-- The lexemes of some tokens, without the end mark. -/
def lexemes (tokens : List Token) : List String :=
  (tokens.filter (·.kind != .eof)).map Token.lexeme

/-- **Words in other gaps are scanned again**, by induction on the words: each
of them ends where its gap begins, and the gap is passed over. -/
theorem scanFrom_respaced {words : List Token} (h : ∀ t ∈ words, Lexeme d t.kind t.lexeme)
    (gap : Nat → String) (hgap : ∀ i, i + 1 < words.length → Spacing d (gap i).toList)
    (p : Position) :
    (scanFrom d (respaced gap (words.map Token.lexeme)).toList 0 p).map (List.map unplaced) =
      .ok (words.map unplaced ++ [(.eof, "")]) := by
  induction words generalizing gap p with
  | nil => rfl
  | cons t words ih =>
    obtain ⟨ht, hwords⟩ := List.forall_mem_cons.mp h
    have hcons {scanned : Except CompileError (List Token)}
        (hscanned : scanned.map (List.map unplaced) = .ok (words.map unplaced ++ [(.eof, "")])) :
        (scanned.map (⟨t.kind, t.lexeme, p⟩ :: ·)).map (List.map unplaced) =
          .ok ((t :: words).map unplaced ++ [(.eof, "")]) := by
      cases scanned with
      | error e => cases hscanned
      | ok tokens => exact congrArg (Except.map (unplaced t :: ·)) hscanned
    cases words with
    | nil =>
      have hlast := scanFrom_lexeme ht stops_nil p
      rw [List.append_nil] at hlast
      exact (congrArg (Except.map (List.map unplaced)) hlast).trans (hcons rfl)
    | cons t' words =>
      have hfirst : Spacing d (gap 0).toList := hgap 0 (by simp)
      have htext : (respaced gap ((t :: t' :: words).map Token.lexeme)).toList =
          t.lexeme.toList ++ ((gap 0).toList ++
            (respaced (fun i => gap (i + 1)) ((t' :: words).map Token.lexeme)).toList) := by
        simp only [List.map_cons, respaced, String.toList_append, List.append_assoc]
      rw [htext, scanFrom_lexeme ht (hfirst.stops _), scanFrom_skips (hfirst.skips _)]
      refine hcons (ih hwords _ (fun i hi => hgap (i + 1) ?_) _)
      rw [List.length_cons]
      omega

/-- **Other gaps between the lexemes of a text give the same tokens**, up to
their places. Each gap has to begin with a blank, so that the lexeme before it
ends there. -/
theorem scan_respaced (d : Dialect) (source : String) (tokens : List Token)
    (h : scan d source = .ok tokens) (gap : Nat → String)
    (hgap : ∀ i, i + 1 < (lexemes tokens).length → Spacing d (gap i).toList) :
    (scan d (respaced gap (lexemes tokens))).map (List.map unplaced) =
      .ok (tokens.map unplaced) := by
  obtain ⟨words, p, rfl, hwords⟩ := scan_eq_words h
  have hlexemes : lexemes (words ++ [.eof p]) = words.map Token.lexeme := by
    rw [lexemes, List.filter_append, List.filter_eq_self.mpr fun t ht =>
      bne_iff_ne.mpr (hwords t ht).kind_ne_eof]
    exact congrArg (List.map Token.lexeme) (List.append_nil words)
  rw [hlexemes, List.length_map] at hgap
  rw [hlexemes, List.map_append]
  exact scanFrom_respaced hwords gap hgap .start

/-- Lexemes that stand close together, among them a library name before
colons, a number before points and a slash, are taken apart by comments and
blanks. -/
theorem scan_respaced_marks :
    let source := "f:@m::g-/0..1.5>=x=>y"
    let gap : Nat → String := fun i => if i % 2 = 0 then " //:=/\n//\n" else "\t\r\n"
    let words : List String :=
      ["f", ":", "@m::", "g", "-", "/", "0", "..", "1.5", ">=", "x", "=>", "y"]
    ∃ tokens, scan .maple source = .ok tokens ∧ lexemes tokens = words ∧
      (∀ i, i + 1 < (lexemes tokens).length → Spacing .maple (gap i).toList) ∧
      (scan .maple (respaced gap words)).map (List.map unplaced) = .ok (tokens.map unplaced) := by
  intro source gap words
  let tokens : List Token :=
    [⟨.identifier, "f", ⟨0, 1, 1⟩⟩, ⟨.colon, ":", ⟨1, 1, 2⟩⟩, ⟨.qualifier, "@m::", ⟨2, 1, 3⟩⟩,
      ⟨.identifier, "g", ⟨6, 1, 7⟩⟩, ⟨.operator, "-", ⟨7, 1, 8⟩⟩, ⟨.operator, "/", ⟨8, 1, 9⟩⟩,
      ⟨.number, "0", ⟨9, 1, 10⟩⟩, ⟨.dotDot, "..", ⟨10, 1, 11⟩⟩, ⟨.number, "1.5", ⟨12, 1, 13⟩⟩,
      ⟨.comparison .greaterEqual, ">=", ⟨15, 1, 16⟩⟩, ⟨.identifier, "x", ⟨17, 1, 18⟩⟩,
      ⟨.into, "=>", ⟨18, 1, 19⟩⟩, ⟨.identifier, "y", ⟨20, 1, 21⟩⟩, .eof ⟨21, 1, 22⟩]
  have hscan : scan .maple source = .ok tokens := by decide +kernel
  have hwords : lexemes tokens = words := by decide +kernel
  have hgap (i : Nat) : Spacing .maple (gap i).toList := by
    have hcomments : (" //:=/\n//\n").toList =
        ' ' :: '/' :: '/' :: ([':', '=', '/'] ++ '\n' :: '/' :: '/' :: ([] ++ '\n' :: [])) := by
      decide
    have hblanks : ("\t\r\n").toList = ['\t', '\r', '\n'] := by decide
    unfold gap
    split
    · rw [hcomments]
      exact .mk rfl (.comment rfl (by decide) (.comment rfl (by decide) .nil))
    · rw [hblanks]
      exact .mk rfl (.blank rfl (.blank rfl .nil))
  have hsame := scan_respaced .maple source tokens hscan gap fun i _ => hgap i
  rw [hwords] at hsame
  exact ⟨tokens, hscan, hwords, fun i _ => hgap i, hsame⟩

end Token

end MapleCompiler
