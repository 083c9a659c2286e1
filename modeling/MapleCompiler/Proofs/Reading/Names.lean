import MapleCompiler.Program.Equality
import MapleCompiler.Proofs.Reading.Lockstep
import MapleCompiler.Proofs.Token.Layout
import MapleCompiler.Proofs.Typing.Words

/-!
# Names matter only up to equality

A program means the same whatever its names are, as long as different names stay different.
In the full dialect this holds without exception. A name can be replaced by any other word
that is a name there: no such word is a literal, so it is never taken for one, and everything
else that is asked about a name is whether it is the same as another one.

Operands are kept as texts, which may be names or literals. A map of names is therefore
extended to all texts: others than names stay as they are (`onNames`). Then the two readings
are paired (`Pairing.renaming`). Errors are compared by the token that they point at. Since
the tokens of a text stand at different offsets, an error points at one of them only
(`CompileError.PointsAt.unique`), so one can speak of its index.

Main statement: `Program.ofTokens_rename`.
-/

namespace MapleCompiler

/-! ## Names -/

/-- A map of names, on all texts: others than names stay. Operands are kept as
texts, and a literal must not be renamed. -/
def onNames (r : String → String) (x : String) : String :=
  if Lexeme .maple .identifier x then r x else x

/-- **A map that takes names to names**, different ones to different ones. -/
structure RenamesNames (r : String → String) : Prop where
  name : ∀ x, Lexeme .maple .identifier x → Lexeme .maple .identifier (r x)
  injective : Set.InjOn r {x | Lexeme .maple .identifier x}

variable {r : String → String} {x : String}

theorem onNames_of_name (h : Lexeme .maple .identifier x) : onNames r x = r x := if_pos h

theorem onNames_of_not_name (h : ¬Lexeme .maple .identifier x) : onNames r x = x := if_neg h

/-- The map stays injective on all texts, since it takes names to names only:
a name and a text that stays cannot become the same. -/
theorem RenamesNames.onNames_injective (h : RenamesNames r) : Function.Injective (onNames r) := by
  intro x y hxy
  by_cases hx : Lexeme .maple .identifier x
  · rw [onNames_of_name hx] at hxy
    by_cases hy : Lexeme .maple .identifier y
    · rw [onNames_of_name hy] at hxy
      exact h.injective hx hy hxy
    · rw [onNames_of_not_name hy] at hxy
      exact absurd (hxy ▸ h.name x hx) hy
  · rw [onNames_of_not_name hx] at hxy
    by_cases hy : Lexeme .maple .identifier y
    · rw [onNames_of_name hy] at hxy
      exact absurd (hxy.symm ▸ h.name y hy) hx
    · rwa [onNames_of_not_name hy] at hxy

/-- **No name of the full dialect is a literal.** -/
theorem Lexeme.classify_eq_none (h : Lexeme .maple .identifier x) : Literal.classify x = none := by
  rw [h.classify_name, if_neg]
  rintro (rfl | rfl)
  · cases h.unique (by decide +kernel : Lexeme .maple (.boolean true) "true")
  · cases h.unique (by decide +kernel : Lexeme .maple (.boolean false) "false")

/-! ## Tokens -/

namespace Token

/-- **The token with another name**, if it is a name. -/
def rename (r : String → String) (t : Token) : Token :=
  if t.kind = .identifier then { t with lexeme := r t.lexeme } else t

variable {t : Token}

@[simp] theorem rename_kind (t : Token) : (t.rename r).kind = t.kind := by
  unfold rename
  split <;> rfl

@[simp] theorem rename_place (t : Token) : (t.rename r).place = t.place := by
  unfold rename
  split <;> rfl

theorem rename_lexeme (h : t.kind = .identifier) : (t.rename r).lexeme = r t.lexeme := by
  rw [rename, if_pos h]

theorem rename_of_ne (h : t.kind ≠ .identifier) : t.rename r = t := if_neg h

end Token

theorem Gap.le {d : Dialect} {bytes : List UInt8} {i j : Nat} (h : Gap d bytes i j) : i ≤ j := by
  induction h with
  | nil _ => exact Nat.le_refl _
  | blank _ _ _ ih => omega
  | comment _ _ _ hlong _ _ _ ih => omega

/-- **The tokens of a text stand one behind the other.** By induction on how
they cover the text: each of them ends before the next one begins. -/
theorem Covers.pairwise_offset {d : Dialect} {bytes : List UInt8} {i : Nat} {tokens : List Token}
    (h : Covers d bytes i tokens) :
    (∀ t ∈ tokens, i ≤ t.place.offset) ∧
      tokens.Pairwise fun t t' => t.place.offset < t'.place.offset := by
  induction h with
  | last hgap =>
    refine ⟨fun t ht => ?_, List.pairwise_singleton _ _⟩
    rw [List.mem_singleton.mp ht]
    exact hgap.le
  | @next i t rest hgap _ _ hne _ _ ih =>
    obtain ⟨hle, hpairwise⟩ := ih
    have hwidth : 0 < t.width := by
      refine Nat.pos_of_ne_zero fun hzero => hne ?_
      exact String.utf8ByteSize_eq_zero_iff.mp hzero
    refine ⟨List.forall_mem_cons.mpr ⟨hgap.le, fun t' ht' => ?_⟩,
      List.pairwise_cons.mpr ⟨fun t' ht' => ?_, hpairwise⟩⟩
    · have := hgap.le
      have := hle t' ht'
      omega
    · have := hle t' ht'
      omega

namespace Fault

/-- The codes of faults, one for each form. -/
def codes : List String :=
  ["E001", "E100", "E101", "E102", "E103", "E104", "E105", "E106", "E107", "E108", "E200", "E201",
    "E202", "E203", "E204", "E205", "E206", "E207", "E300", "E301", "E302", "E303", "E304", "E305"]

/-- The code of a fault is the entry of the table for its form. -/
theorem getElem?_codes (fault : Fault) : codes[fault.ctorIdx]? = some fault.code := by
  cases fault <;> rfl

/-- **The form of a fault is told by its code.** The codes of the table are
all different, so none of them stands for two forms. -/
theorem ctorIdx_eq_of_code_eq {fault fault' : Fault} (h : fault.code = fault'.code) :
    fault.ctorIdx = fault'.ctorIdx := by
  have hcode := fault.getElem?_codes
  have hlt : fault.ctorIdx < codes.length := (List.getElem?_eq_some_iff.mp hcode).1
  refine (List.getElem?_inj hlt (by decide)).mp ?_
  rw [hcode, fault'.getElem?_codes, h]

end Fault

namespace CompileError

/-- **An error points at the token with an index.** -/
def PointsAt (tokens : List Token) (e : CompileError) (i : Nat) : Prop :=
  ∃ t, tokens[i]? = some t ∧ e.span? = some t.span

/-- Tokens that stand one behind the other have different spans, so an error
points at no more than one of them. -/
theorem PointsAt.unique {tokens : List Token} {e : CompileError} {i j : Nat}
    (hpairwise : tokens.Pairwise fun t t' => t.place.offset < t'.place.offset)
    (hi : e.PointsAt tokens i) (hj : e.PointsAt tokens j) : i = j := by
  obtain ⟨t, hti, ht⟩ := hi
  obtain ⟨t', htj, ht'⟩ := hj
  have hoffset : t.place.offset = t'.place.offset :=
    congrArg Span.offset (Option.some.inj (ht.symm.trans ht'))
  obtain ⟨hi, rfl⟩ := List.getElem?_eq_some_iff.mp hti
  obtain ⟨hj, rfl⟩ := List.getElem?_eq_some_iff.mp htj
  rw [List.pairwise_iff_getElem] at hpairwise
  rcases Nat.lt_trichotomy i j with hlt | heq | hlt
  · exact absurd (hpairwise i j hi hj hlt) (by omega)
  · exact heq
  · exact absurd (hpairwise j i hj hi hlt) (by omega)

end CompileError

/-! ## The two readings -/

/-- The readings of some tokens of the full dialect and of the same tokens
with other names. -/
def Pairing.renaming (h : RenamesNames r) (tokens : List Token)
    (hwords : ∀ t ∈ tokens, t.kind ≠ .eof → Lexeme .maple t.kind t.lexeme) : Pairing where
  dialect := .maple
  dialect' := .maple
  rename := onNames r
  place := id
  token t t' := t ∈ tokens ∧ t' = t.rename r
  text _ _ := True
  error e e' := e'.fault.ctorIdx = e.fault.ctorIdx ∧
    ∃ t ∈ tokens, e.span? = some t.span ∧ e'.span? = some (t.rename r).span
  warning w w' := ∃ t ∈ tokens, t.kind = .identifier ∧
    w = .restoreWithoutBackup t.lexeme t.span ∧
    w' = .restoreWithoutBackup (r t.lexeme) (t.rename r).span
  rename_injective := h.onNames_injective
  rename_zero := onNames_of_not_name (by decide +kernel)
  kind_eq := by
    rintro t _ ⟨-, rfl⟩
    exact t.rename_kind
  lexeme_eq := by
    rintro t _ ⟨ht, rfl⟩ hoperand
    have hword := hwords t ht (fun heof => by rw [heof] at hoperand; cases hoperand)
    by_cases hname : t.kind = .identifier
    · rw [Token.rename_lexeme hname, onNames_of_name (hname ▸ hword)]
    · rw [Token.rename_of_ne hname, onNames_of_not_name fun hx => hname (hword.unique hx)]
  classify_eq := by
    rintro t _ ⟨ht, rfl⟩ -
    by_cases hname : t.kind = .identifier
    · have hword : Lexeme .maple .identifier t.lexeme :=
        hname ▸ hwords t ht (by rw [hname]; decide)
      rw [Token.rename_lexeme hname, hword.classify_eq_none, (h.name _ hword).classify_eq_none]
    · rw [Token.rename_of_ne hname]
  fixed_eq := by
    rintro t _ ⟨-, rfl⟩ hkind
    rw [Token.rename_of_ne]
    intro hname
    rw [hname] at hkind
    exact absurd hkind (by decide)
  place_eq := by
    rintro t _ ⟨-, rfl⟩ hkind
    rw [Token.rename_of_ne (by rw [hkind]; decide)]
  text_rename _ := trivial
  text_lexeme _ := trivial
  error_at := by
    rintro t _ x x' y y' fault hfault ⟨ht, rfl⟩ - -
    exact ⟨Fault.ctorIdx_eq_of_code_eq (hfault.code_eq _ _ _ _), t, ht, rfl, rfl⟩
  error_branch := by
    rintro t _ ⟨ht, rfl⟩ hend
    refine ⟨?_, t, ht, rfl, rfl⟩
    simp only [CompileError.unexpected, Token.rename_kind, if_neg hend]
    rfl
  warning_restore := by
    rintro t _ ⟨ht, rfl⟩ hname
    exact ⟨t, ht, hname, rfl, by rw [Token.rename_lexeme hname]⟩

/-- Every error of either reading points at one token, with the same index in
both. Replacing names does not move tokens, so they still stand one behind the
other. -/
theorem CompileError.pointsAt_iff {tokens : List Token}
    (hpairwise : tokens.Pairwise fun t t' => t.place.offset < t'.place.offset)
    {e e' : CompileError} {t : Token} (ht : t ∈ tokens) (he : e.span? = some t.span)
    (he' : e'.span? = some (t.rename r).span) :
    ∃ i, (∀ j, e.PointsAt tokens j ↔ j = i) ∧
      ∀ j, e'.PointsAt (tokens.map (Token.rename r)) j ↔ j = i := by
  obtain ⟨i, hi⟩ := List.mem_iff_getElem?.mp ht
  have hpairwise' : (tokens.map (Token.rename r)).Pairwise
      fun t t' => t.place.offset < t'.place.offset := by
    rw [List.pairwise_map]
    simpa only [Token.rename_place] using hpairwise
  have hat : e.PointsAt tokens i := ⟨t, hi, he⟩
  have hat' : e'.PointsAt (tokens.map (Token.rename r)) i :=
    ⟨t.rename r, by rw [List.getElem?_map, hi, Option.map_some], he'⟩
  exact ⟨i, fun j => ⟨fun hj => hj.unique hpairwise hat, fun hj => hj ▸ hat⟩,
    fun j => ⟨fun hj => hj.unique hpairwise' hat', fun hj => hj ▸ hat'⟩⟩

/-- **Names matter only up to equality.** If the names of a text are replaced,
different ones by different ones, either both are programs, and one is the
other with the names replaced, or both are refused, with faults of the same
form at tokens with the same index. Warnings are about the same tokens. -/
theorem Program.ofTokens_rename (r : String → String) (h : RenamesNames r) (source : String)
    (tokens : List Token) (hscan : Token.scan .maple source = .ok tokens) (library : Bool) :
    (∃ p warnings warnings', ofTokens .maple library tokens = .ok (p, warnings) ∧
      ofTokens .maple library (tokens.map (Token.rename r)) =
        .ok (p.rename (onNames r), warnings') ∧
      List.Forall₂ (fun w w' => ∃ t ∈ tokens, t.kind = .identifier ∧
        w = .restoreWithoutBackup t.lexeme t.span ∧
        w' = .restoreWithoutBackup (r t.lexeme) (t.rename r).span) warnings warnings') ∨
    ∃ e e', ofTokens .maple library tokens = .error e ∧
      ofTokens .maple library (tokens.map (Token.rename r)) = .error e' ∧
      e'.fault.ctorIdx = e.fault.ctorIdx ∧
      ∃ i, (∀ j, e.PointsAt tokens j ↔ j = i) ∧
        ∀ j, e'.PointsAt (tokens.map (Token.rename r)) j ↔ j = i := by
  have hwords := Token.lexeme_of_scanFrom hscan
  have hpairwise := ((Token.scan_covers .maple source).1 tokens hscan).pairwise_offset.2
  have heof : ∃ t ∈ tokens, t.kind = .eof := by
    have hcases := Token.scan_cases .maple source
    rwa [hscan] at hcases
  have htokens : List.Forall₂ (Pairing.renaming h tokens hwords).token tokens
      (tokens.map (Token.rename r)) :=
    List.forall₂_map_right_iff.mpr (List.forall₂_same.mpr fun t ht => ⟨ht, rfl⟩)
  have hrules := paired_ofTokens (.renaming h tokens hwords) library htokens
    (Pairing.token_endMark htokens heof)
  dsimp only [Pairing.renaming] at hrules
  generalize ofTokens .maple library tokens = result,
    ofTokens .maple library (tokens.map (Token.rename r)) = result' at hrules
  cases hrules with
  | @ok unit unit' hunit =>
    obtain ⟨hprogram, hwarnings⟩ := hunit
    rw [placed_id, placed_id] at hprogram
    exact .inl ⟨unit.1, unit.2, unit'.2, rfl, congrArg Except.ok (Prod.ext hprogram rfl), hwarnings⟩
  | error he =>
    obtain ⟨hform, t, ht, hspan, hspan'⟩ := he
    exact .inr ⟨_, _, rfl, rfl, hform, CompileError.pointsAt_iff hpairwise ht hspan hspan'⟩

/-- Two names that take each other's place are different names, and all others
stay. -/
theorem renamesNames_swap {x y : String} (hx : Lexeme .maple .identifier x)
    (hy : Lexeme .maple .identifier y) : RenamesNames (Equiv.swap x y) where
  name z hz := by
    rw [Equiv.swap_apply_def]
    split
    · exact hy
    split
    · exact hx
    · exact hz
  injective := (Equiv.swap x y).injective.injOn

/-- A variable is brought back that was not saved, and another one is printed
that was not declared. With their names exchanged, the text is refused at the
same token for the other name. -/
theorem Program.ofTokens_rename_swap :
    let source := "dec ch i32 x 1\nload x\nout y"
    let tokens : List Token :=
      [⟨.dec, "dec", ⟨0, 1, 1⟩⟩, ⟨.ch, "ch", ⟨4, 1, 5⟩⟩, ⟨.type .i32, "i32", ⟨7, 1, 8⟩⟩,
        ⟨.identifier, "x", ⟨11, 1, 12⟩⟩, ⟨.number, "1", ⟨13, 1, 14⟩⟩, ⟨.load, "load", ⟨15, 2, 1⟩⟩,
        ⟨.identifier, "x", ⟨20, 2, 6⟩⟩, ⟨.out, "out", ⟨22, 3, 1⟩⟩,
        ⟨.identifier, "y", ⟨26, 3, 5⟩⟩, .eof ⟨27, 3, 6⟩]
    let r : String → String := Equiv.swap "x" "y"
    RenamesNames r ∧ Token.scan .maple source = .ok tokens ∧
      ∃ e e', ofTokens .maple false tokens = .error e ∧ e.fault = .undeclared "y" ∧
        ofTokens .maple false (tokens.map (Token.rename r)) = .error e' ∧
        e'.fault = .undeclared "x" ∧ (∀ j, e.PointsAt tokens j ↔ j = 8) ∧
        ∀ j, e'.PointsAt (tokens.map (Token.rename r)) j ↔ j = 8 := by
  intro source tokens r
  have hrenames : RenamesNames r :=
    renamesNames_swap (by decide +kernel) (by decide +kernel)
  have hscan : Token.scan .maple source = .ok tokens := by decide +kernel
  have herror : ofTokens .maple false tokens =
      .error ⟨.undeclared "y", some ⟨26, 1, 3, 5⟩, none⟩ := by decide +kernel
  have herror' : ofTokens .maple false (tokens.map (Token.rename r)) =
      .error ⟨.undeclared "x", some ⟨26, 1, 3, 5⟩, none⟩ := by decide +kernel
  refine ⟨hrenames, hscan, _, _, herror, rfl, herror', rfl, ?_⟩
  obtain ⟨_, _, _, hok, -⟩ | ⟨_, _, he, he', -, i, hi, hi'⟩ :=
    ofTokens_rename r hrenames source tokens hscan false
  · cases herror.symm.trans hok
  · obtain rfl := Except.error.inj (herror.symm.trans he)
    obtain rfl := Except.error.inj (herror'.symm.trans he')
    obtain rfl : 8 = i := (hi 8).mp ⟨⟨.identifier, "y", ⟨26, 3, 5⟩⟩, rfl, rfl⟩
    exact ⟨hi, hi'⟩

end MapleCompiler
