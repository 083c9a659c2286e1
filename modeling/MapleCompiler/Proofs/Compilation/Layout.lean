import MapleCompiler.Proofs.Acceptance.Judgement
import MapleCompiler.Proofs.Library.Location
import MapleCompiler.Proofs.Reading.Lockstep

/-!
# Layout does not matter

Blanks, line breaks and comments separate tokens and do nothing else. Two texts with the
same tokens in the same order are compiled to the same code with the same libraries, or
are refused for the same reason; only the places that messages point at may differ.

Three things are put together here. Reading goes in lockstep (`Pairing.layout`) and gives
the same program up to the places that its imports keep. The emitter never looks at these
places (`Program.cpp_placed`). Libraries are asked for by name, so the place of an import
shows only in the error of an import that fails (`Loader.compileAll_unplaced`).

Main statement: `compileUnit_layout`.
-/

namespace MapleCompiler

/-! ## Code -/

theorem Node.bodyPlaced_eq_map (f : Span → Span) (nodes : List Node) :
    bodyPlaced f nodes = nodes.map (placed f) := by
  induction nodes with
  | nil => rfl
  | cons node rest ih => rw [bodyPlaced, ih, List.map_cons]

namespace Cpp

variable (names : Names) (f : Span → Span)

/-- The lines of a node do not depend on places, if those of its body do not.
By cases on the node; only imports have a place, and they have no lines. -/
theorem nodeLines_placed_of_body (node : Node)
    (h : ∀ depth, bodyLines names depth (Node.bodyPlaced f node.body) =
      bodyLines names depth node.body) (depth : Nat) :
    nodeLines names depth (node.placed f) = nodeLines names depth node := by
  cases node with
  | run _ body | ifThen _ body | elseIf _ body | otherwise body | loop _ _ _ body
  | function _ body =>
    have hbody : bodyLines names (depth + 1) (Node.bodyPlaced f body) =
        bodyLines names (depth + 1) body := h (depth + 1)
    rw [Node.placed, nodeLines, nodeLines, hbody]
  | _ => rfl

/-- **The lines of a block do not depend on places.** By induction on the
nodes and their bodies. -/
theorem bodyLines_placed (depth : Nat) (nodes : List Node) :
    bodyLines names depth (Node.bodyPlaced f nodes) = bodyLines names depth nodes := by
  induction nodes using Node.bodyInduction generalizing depth with
  | nil => rfl
  | cons node rest ihbody ihrest =>
    rw [Node.bodyPlaced, bodyLines, bodyLines, nodeLines_placed_of_body names f node ihbody, ihrest]

end Cpp

namespace Program

variable (p : Program) (f : Span → Span)

theorem namespace?_placed : (p.placed f).namespace? = p.namespace? := by
  obtain ⟨nodes⟩ := p
  cases nodes with
  | nil => rfl
  | cons node _ => cases node <;> rfl

theorem importSites_placed :
    (p.placed f).importSites = p.importSites.map fun site => (site.1, f site.2) := by
  unfold importSites placed
  rw [Node.bodyPlaced_eq_map, List.filterMap_map, List.map_filterMap]
  refine List.filterMap_congr fun node _ => ?_
  cases node <;> rfl

theorem imports_placed : (p.placed f).imports = p.imports := by
  rw [imports, importSites_placed, List.map_map]
  rfl

theorem functions_placed :
    (p.placed f).functions = p.functions.map fun g => (g.1, Node.bodyPlaced f g.2) := by
  unfold functions placed
  rw [Node.bodyPlaced_eq_map, List.filterMap_map, List.map_filterMap]
  refine List.filterMap_congr fun node _ => ?_
  cases node <;> rfl

theorem declarations_placed : Cpp.declarations (p.placed f).nodes = Cpp.declarations p.nodes := by
  unfold Cpp.declarations placed
  rw [Node.bodyPlaced_eq_map, List.filterMap_map]
  refine List.filterMap_congr fun node _ => ?_
  cases node <;> rfl

theorem statements_placed :
    (p.placed f).nodes.filter Cpp.isStatement =
      Node.bodyPlaced f (p.nodes.filter Cpp.isStatement) := by
  unfold placed
  rw [Node.bodyPlaced_eq_map, Node.bodyPlaced_eq_map, List.filter_map]
  congr 2
  funext node
  cases node <;> rfl

/-- **Code does not depend on places.** They are kept for messages about
imports only. -/
theorem cpp_placed (mode : Cpp.Mode) : (p.placed f).cpp mode = p.cpp mode := by
  have hnames : Cpp.Names.ofProgram (p.placed f) = Cpp.Names.ofProgram p := by
    rw [Cpp.Names.ofProgram, namespace?_placed, functions_placed, List.map_map]
    rfl
  have hfunctions (names : Cpp.Names) :
      Cpp.functionLines names (p.placed f) = Cpp.functionLines names p := by
    rw [Cpp.functionLines, functions_placed, List.flatMap_map]
    refine List.flatMap_congr fun g _ => congrArg Cpp.paragraph ?_
    exact Cpp.nodeLines_placed_of_body names f (.function g.1 g.2)
      (fun depth => Cpp.bodyLines_placed names f depth g.2) 0
  have hmain (names : Cpp.Names) :
      Cpp.mainLines mode names (p.placed f) = Cpp.mainLines mode names p := by
    unfold Cpp.mainLines
    rw [statements_placed, Cpp.bodyLines_placed]
  unfold cpp Cpp.programLines Cpp.importLines Cpp.variableLines
  dsimp only
  rw [hnames, hfunctions, hmain, imports_placed, declarations_placed]

end Program

/-! ## Libraries -/

/-- An error without its place. -/
def CompileError.unplaced (e : CompileError) : Fault × Option String := (e.fault, e.library?)

namespace Loader

variable (loader : Loader Id) (depth : Nat) (opened : List String)

/-- The place of an import shows only in its error, and there only as the
place that it points at. -/
theorem compileOne_unplaced (name : String) (site? site?' : Option Span) (done : List Header) :
    (loader.compileOne depth opened name site? done).mapError CompileError.unplaced =
      (loader.compileOne depth opened name site?' done).mapError CompileError.unplaced := by
  rw [compileOne_eq, compileOne_eq]
  split
  · rfl
  split
  · rfl
  split
  · rfl
  split
  · rfl
  · cases depth <;> rfl

/-- **Imports of the same libraries in the same order** give the same headers,
or the same error up to its place. By induction on the imports. -/
theorem compileAll_unplaced {sites sites' : List (String × Span)}
    (h : sites.map Prod.fst = sites'.map Prod.fst) (done : List Header) :
    (loader.compileAll depth opened sites done).mapError CompileError.unplaced =
      (loader.compileAll depth opened sites' done).mapError CompileError.unplaced := by
  induction sites generalizing sites' done with
  | nil =>
    rw [List.map_nil, eq_comm, List.map_eq_nil_iff] at h
    rw [h]
  | cons site sites ih =>
    obtain ⟨site', rest, rfl, hname, hrest⟩ := List.map_eq_cons_iff.mp h.symm
    have hone := loader.compileOne_unplaced depth opened site.1 (some site.2) (some site'.2) done
    rw [compileAll_cons, compileAll_cons, hname]
    generalize loader.compileOne depth opened site.1 (some site.2) done = r,
      loader.compileOne depth opened site.1 (some site'.2) done = r' at hone
    cases r with
    | error e =>
      cases r' with
      | error e' => exact hone
      | ok _ => cases hone
    | ok done₁ =>
      cases r' with
      | error _ => cases hone
      | ok done₁' =>
        obtain rfl : done₁ = done₁' := Except.ok.inj hone
        exact ih hrest.symm done₁

end Loader

/-! ## Units -/

/-- **Outcomes that are the same up to places**: the same code with the same
libraries and the same warnings, or two errors that are related. -/
inductive CompiledAlike (E : CompileError → CompileError → Prop) :
    Except CompileError CompiledUnit → Except CompileError CompiledUnit → Prop
  | ok {unit unit' : CompiledUnit} (hcode : unit'.code = unit.code)
      (hlibraries : unit'.libraries = unit.libraries)
      (hwarnings : unit'.warnings.map Warning.unplaced = unit.warnings.map Warning.unplaced) :
      CompiledAlike E (.ok unit) (.ok unit')
  | error {e e' : CompileError} (h : E e e') : CompiledAlike E (.error e) (.error e')

theorem forall₂_view_eq_iff {α β : Type} {view : α → β} {xs ys : List α} :
    List.Forall₂ (fun x y => view y = view x) xs ys ↔ ys.map view = xs.map view := by
  rw [← List.forall₂_eq_eq_eq, List.forall₂_map_left_iff, List.forall₂_map_right_iff]
  exact ⟨List.Forall₂.flip, List.Forall₂.flip⟩

/-- **Texts that are read in lockstep are compiled alike**, if the two
readings have the same names. What is read is then the same up to places,
which code does not depend on. -/
theorem compiledAlike_of_paired (P : Pairing) (hrename : P.rename = id)
    (hwarning : ∀ w w', P.warning w w' → w'.unplaced = w.unplaced)
    (herror : ∀ e e', e'.unplaced = e.unplaced → P.error e e') (loader : Loader Id)
    (mode : Cpp.Mode) {source source' : String} {tokens tokens' : List Token}
    (hscan : Token.scan P.dialect source = .ok tokens)
    (hscan' : Token.scan P.dialect' source' = .ok tokens')
    (h : List.Forall₂ P.token tokens tokens') :
    CompiledAlike P.error (compileUnit loader P.dialect mode source)
      (compileUnit loader P.dialect' mode source') := by
  have hread := Program.paired_ofText P mode.isLibrary hscan hscan' h
  rw [compileUnit_eq, compileUnit_eq]
  generalize Program.ofText P.dialect mode.isLibrary source = r,
    Program.ofText P.dialect' mode.isLibrary source' = r' at hread
  cases hread with
  | error he => exact .error he
  | @ok unit unit' hunit =>
    obtain ⟨hprogram, hwarnings⟩ := hunit
    rw [hrename, Program.rename_id] at hprogram
    have hcode : unit'.1.cpp mode = unit.1.cpp mode := by
      rw [← unit'.1.cpp_placed P.place, hprogram, Program.cpp_placed]
    have himports : unit.1.importSites.map Prod.fst = unit'.1.importSites.map Prod.fst := by
      have hplaced := congrArg Program.imports hprogram
      rw [Program.imports_placed, Program.imports_placed] at hplaced
      exact hplaced.symm
    have hlibraries := loader.compileAll_unplaced loader.limit [] himports []
    dsimp only
    generalize loader.compileAll loader.limit [] unit.1.importSites [] = headers,
      loader.compileAll loader.limit [] unit'.1.importSites [] = headers' at hlibraries
    cases headers with
    | error e =>
      cases headers' with
      | error e' => exact .error (herror e e' (Except.error.inj hlibraries).symm)
      | ok _ => cases hlibraries
    | ok headers =>
      cases headers' with
      | error _ => cases hlibraries
      | ok headers' =>
        exact .ok hcode (Except.ok.inj hlibraries).symm
          (forall₂_view_eq_iff.mp (hwarnings.imp hwarning))

/-! ## Layout -/

/-- A token without its place. -/
def Token.unplaced (t : Token) : TokenKind × String := (t.kind, t.lexeme)

/-- The readings of the same tokens at other places. -/
def Pairing.layout (d : Dialect) : Pairing where
  dialect := d
  dialect' := d
  rename := id
  place _ := ⟨0, 0, 0, 0⟩
  token t t' := t'.unplaced = t.unplaced
  text := Eq
  error e e' := e'.unplaced = e.unplaced
  warning w w' := w'.unplaced = w.unplaced
  rename_injective := Function.injective_id
  rename_zero := id_eq _
  kind_eq h := congrArg Prod.fst h
  lexeme_eq h _ := congrArg Prod.snd h
  classify_eq h _ := congrArg (Literal.classify ·.2) h
  fixed_eq h _ := congrArg Prod.snd h
  place_eq _ _ := rfl
  text_rename := Eq.refl
  text_lexeme h := (congrArg Prod.snd h).symm
  error_at _ _ _ hx hy := by
    subst hx hy
    rfl
  error_branch {t t'} h hend := by
    have hkind : t'.kind = t.kind := congrArg Prod.fst h
    have hlexeme : t'.lexeme = t.lexeme := congrArg Prod.snd h
    simp only [CompileError.unexpected, hkind, hlexeme]
    rfl
  warning_restore {t t'} h _ := by
    have hlexeme : t'.lexeme = t.lexeme := congrArg Prod.snd h
    rw [hlexeme]
    rfl

/-- **Layout does not matter.** Two texts with the same tokens up to their
places are compiled to the same code, libraries and warnings, or are refused
with the same fault in the same library. -/
theorem compileUnit_layout (loader : Loader Id) (d : Dialect) (mode : Cpp.Mode)
    (source source' : String) (words : List (TokenKind × String))
    (h : (Token.scan d source).map (List.map Token.unplaced) = .ok words)
    (h' : (Token.scan d source').map (List.map Token.unplaced) = .ok words) :
    CompiledAlike (fun e e' => e'.unplaced = e.unplaced) (compileUnit loader d mode source)
      (compileUnit loader d mode source') := by
  cases hscan : Token.scan d source with
  | error e =>
    rw [hscan] at h
    cases h
  | ok tokens =>
    cases hscan' : Token.scan d source' with
    | error e =>
      rw [hscan'] at h'
      cases h'
    | ok tokens' =>
      rw [hscan] at h
      rw [hscan'] at h'
      have hsame : tokens'.map Token.unplaced = tokens.map Token.unplaced :=
        (Except.ok.inj h').trans (Except.ok.inj h).symm
      exact compiledAlike_of_paired (.layout d) rfl (fun _ _ h => h) (fun _ _ h => h) loader mode
        hscan hscan' (forall₂_view_eq_iff.mpr hsame)

/-- An import and a warning that stand elsewhere because of a comment and
other line breaks. Both texts compile, and their warnings differ in where they
are. -/
theorem compileUnit_layout_comment :
    let words : List (TokenKind × String) :=
      [(.lib, "lib"), (.libraryName, "@a"), (.dec, "dec"), (.ch, "ch"), (.type .i32, "i32"),
        (.identifier, "x"), (.number, "1"), (.load, "load"), (.identifier, "x"), (.eof, "")]
    let loader := Shelf.pureLoader [("a", .text "dec i32 y 2")]
    (Token.scan .maple "lib @a\ndec ch i32 x 1\nload x").map (List.map Token.unplaced) =
        .ok words ∧
      (Token.scan .maple "// one import\n\tlib\n@a dec ch i32 x 1 load\r\nx").map
        (List.map Token.unplaced) = .ok words ∧
      ∃ unit unit',
        compileUnit loader .maple .program "lib @a\ndec ch i32 x 1\nload x" = .ok unit ∧
        compileUnit loader .maple .program "// one import\n\tlib\n@a dec ch i32 x 1 load\r\nx" =
          .ok unit' ∧
        unit'.code = unit.code ∧ unit'.libraries = unit.libraries ∧
        unit.libraries.map Header.name = ["a"] ∧
        unit.warnings = [.restoreWithoutBackup "x" ⟨27, 1, 3, 6⟩] ∧
        unit'.warnings = [.restoreWithoutBackup "x" ⟨43, 1, 4, 1⟩] := by
  intro words loader
  have hscan : (Token.scan .maple "lib @a\ndec ch i32 x 1\nload x").map
      (List.map Token.unplaced) = .ok words := by decide +kernel
  have hscan' : (Token.scan .maple "// one import\n\tlib\n@a dec ch i32 x 1 load\r\nx").map
      (List.map Token.unplaced) = .ok words := by decide +kernel
  have halike := compileUnit_layout loader _ .program _ _ words hscan hscan'
  have hfirst : (compileUnit loader .maple .program
      "lib @a\ndec ch i32 x 1\nload x").toOption.map
        (fun unit => (unit.libraries.map Header.name, unit.warnings)) =
      some (["a"], [.restoreWithoutBackup "x" ⟨27, 1, 3, 6⟩]) := by decide +kernel
  have hsecond : (compileUnit loader .maple .program
      "// one import\n\tlib\n@a dec ch i32 x 1 load\r\nx").toOption.map CompiledUnit.warnings =
      some [.restoreWithoutBackup "x" ⟨43, 1, 4, 1⟩] := by decide +kernel
  refine ⟨hscan, hscan', ?_⟩
  generalize compileUnit loader .maple .program "lib @a\ndec ch i32 x 1\nload x" = result,
    compileUnit loader .maple .program "// one import\n\tlib\n@a dec ch i32 x 1 load\r\nx" =
      result' at halike hfirst hsecond
  cases halike with
  | error _ => cases hfirst
  | @ok unit unit' hcode hlibraries _ =>
    obtain ⟨hnames, hwarnings⟩ := Prod.mk.inj (Option.some.inj hfirst)
    exact ⟨unit, unit', rfl, rfl, hcode, hlibraries, hnames, hwarnings, Option.some.inj hsecond⟩

end MapleCompiler
