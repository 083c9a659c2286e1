import MapleCompiler.Compilation
import MapleCompiler.Proofs.Emission.Lines
import MapleCompiler.Proofs.Library.Effects
import MapleCompiler.Proofs.Scoping.Visibility

/-!
# The nesting of generated code

A node stands only where what it closes is open: the end of a conditional is a
node of its own, and an acceptable list has it in the right place. So the lines
of a node take the open braces to those that the next node needs
(`Part.nested_nodeLines`), and a list leaves nothing open that it does not leave
to be closed (`Accepts.nested_bodyLines`). Around these a unit has lines that do
not depend on its statements.

Main result: all code that is compiled is balanced, and indented by its nesting
(`compileUnit_wellNested`). This holds of a unit and of the libraries it needs,
however the loader finds them.
-/

namespace MapleCompiler

open Cpp

/-! ## Nodes and lists of nodes -/

namespace Part

/-- The open braces where a part of a list comes, when those in `o` are open
around the list. -/
def opened (part : Part) (o : List Brace) : List Brace := List.replicate part.unclosed .block ++ o

variable {part next : Part} {node : Node} {d : Dialect} {ctx : Context} {F : Facts} {names : Names}
  {o : List Brace} {depth : Nat}

theorem opened_of_isFinal (h : part.isFinal = true) (o : List Brace) : part.opened o = o := by
  rw [opened, unclosed, if_pos h]
  rfl

/-- **The lines of a node** take the braces that are open before it to those
that are open after it, if the lines of its body leave them as they are. -/
theorem nested_nodeLines (hnames : names.IsWord) (hpart : part.after? node = some next)
    (hnode : node.Checked d.vocabulary ctx F) (hF : F.ArraysFit) (hdepth : o.count .block = depth)
    (hspace : depth = 0 → ¬StartsIn 'n' (lineText names node))
    (hbody : Nested (.block :: o) (bodyLines names (depth + 1) node.body) (.block :: o)) :
    Nested (part.opened o) (nodeLines names depth node) (next.opened o) := by
  have hopening : Nested (part.opened o) (opening names depth [] node).lines
      (if opensBlock node then .block :: o else o) := by
    unfold opening
    split
    · next hwritten =>
      have hfits := fits_line hnames hnode hF hwritten hdepth hspace
      have hopened : part.opened o = if closesBlock node then .block :: o else o := by
        rw [closesBlock_of_after? hpart, opened, unclosed]
        cases part.isFinal <;> rfl
      rw [hopened]
      exact .single hfits
    -- imports and the namespace of the unit have no line
    · next hwritten =>
      have hhead : isStatement node = false ∧ opensBlock node = false := by
        cases node <;> first | exact ⟨rfl, rfl⟩ | exact absurd rfl hwritten
      rw [opened, (unclosed_of_not_isStatement hpart hhead.1).1, hhead.2]
      exact .nil o
  have hinside : Nested (if opensBlock node then .block :: o else o)
      (bodyLines names (depth + 1) node.body) (if opensBlock node then .block :: o else o) := by
    cases hopens : opensBlock node with
    | true => exact hbody
    | false =>
      have hnone : node.body = [] := by cases node <;> first | rfl | cases hopens
      rw [hnone]
      exact .nil o
  have hclosing : Nested (if opensBlock node then .block :: o else o)
      (Cpp.closing depth node).lines (next.opened o) := by
    rw [opened, unclosed_of_after? hpart depth]
    cases node with
    | run count body => exact .single (fits_closing hdepth)
    | function s body => exact .single (fits_closing hdepth)
    | _ => exact .nil _
  rw [nodeLines_eq names depth [] node]
  exact hopening.append (hinside.append hclosing)

end Part

namespace Accepts

variable {d : Dialect} {ctx : Context} {part part' : Part} {F F' : Facts} {nodes : List Node}
  {names : Names} {keep : Node → Bool} {o : List Brace} {depth : Nat}

/-- **The lines of a list** leave open what the list leaves to be closed. By
induction on the judgement, with the line of each node and the lines of its
body. -/
theorem nested_bodyLines (hnames : names.IsWord)
    (h : Accepts d.vocabulary ctx part F nodes part' F') (hF : F.ArraysFit)
    (hkeep : KeepsStatements keep) (hdepth : o.count .block = depth + 1) :
    Nested (part.opened o) (bodyLines names (depth + 1) (nodes.filter keep)) (part'.opened o) := by
  induction h generalizing keep o depth with
  | nil => exact .nil _
  | @cons ctx part next inside part' F G F' node rest hpart hnode hbody hinside hrest ihbody
      ihrest =>
    have henter := (Facts.invariant_arraysFit d).enter hnode hF
    have hlines := ihrest (invariant_node (Facts.invariant_arraysFit d) hnode hbody hF) hkeep hdepth
    rw [List.filter_cons]
    split
    · have hin : Nested (.block :: o) (bodyLines names (depth + 1 + 1) node.body)
          (.block :: o) := by
        have hcount : (Brace.block :: o).count .block = depth + 1 + 1 := by
          rw [List.count_cons_self, hdepth]
        have hlist := @ihbody (fun _ => true) _ _ henter (fun _ _ => rfl) hcount
        rwa [List.filter_true, Part.opened_of_isFinal rfl,
          Part.opened_of_isFinal hinside] at hlist
      rw [bodyLines]
      have hpos : depth + 1 = 0 → ¬StartsIn 'n' (lineText names node) := fun hzero =>
        absurd hzero (Nat.succ_ne_zero depth)
      exact (Part.nested_nodeLines hnames hpart hnode hF hdepth hpos hin).append hlines
    · next hk =>
      have hhead : isStatement node = false := Bool.eq_false_iff.mpr fun hs => hk (hkeep node hs)
      obtain ⟨hpart₀, hnext₀⟩ := Part.unclosed_of_not_isStatement hpart hhead
      rw [Part.opened, hpart₀, ← hnext₀]
      exact hlines

/-- The lines of a whole body leave open what is open: a body ends where
nothing is left to be closed. -/
theorem nested_body {inside : Part} (hnames : names.IsWord)
    (h : Accepts d.vocabulary ctx .list F nodes inside F') (hinside : inside.isFinal = true)
    (hF : F.ArraysFit) (hdepth : o.count .block = depth + 1) :
    Nested o (bodyLines names (depth + 1) nodes) o := by
  have hlines := h.nested_bodyLines hnames hF
    (show KeepsStatements fun _ => true from fun _ _ => rfl) hdepth
  rwa [List.filter_true, Part.opened_of_isFinal rfl, Part.opened_of_isFinal hinside] at hlines

/-- **The lines of functions and variables of a unit** stand outside of all
blocks. -/
theorem nested_libraryPart (hnames : names.IsWord)
    (h : Accepts d.vocabulary ctx part F nodes part' F') (hF : F.ArraysFit) {node : Node}
    (hmem : node ∈ nodes) (hnode : node.isLibraryPart = true) (ho : o.count .block = 0) :
    Nested o (nodeLines names 0 node) o := by
  induction h with
  | nil => cases hmem
  | @cons ctx part next inside part' F G F' first rest hpart hfirst hbody hinside hrest _ ihrest =>
    have henter := (Facts.invariant_arraysFit d).enter hfirst hF
    obtain rfl | hmem := List.mem_cons.mp hmem
    · have hclosed : part.unclosed = 0 ∧ next.unclosed = 0 := by
        cases node <;> first | exact Part.unclosed_eq_zero hpart rfl rfl | cases hnode
      have hin : Nested (.block :: o) (bodyLines names (0 + 1) node.body) (.block :: o) :=
        hbody.nested_body hnames hinside henter
          (List.count_cons_self.trans (congrArg (· + 1) ho))
      have hlines := Part.nested_nodeLines hnames hpart hfirst hF ho
        (fun _ => not_startsIn_line names hnode) hin
      rwa [Part.opened, Part.opened, hclosed.1, hclosed.2] at hlines
    · exact ihrest (invariant_node (Facts.invariant_arraysFit d) hfirst hbody hF) hmem

theorem checked_of_mem {V : Vocabulary} (h : Accepts V ctx part F nodes part' F') {node : Node}
    (hmem : node ∈ nodes) : ∃ ctx₁ F₁, node.Checked V ctx₁ F₁ := by
  induction h with
  | nil => cases hmem
  | cons _ hnode _ _ _ _ ih =>
    obtain rfl | hmem := List.mem_cons.mp hmem
    · exact ⟨_, _, hnode⟩
    · exact ih hmem

end Accepts

/-! ## Units -/

namespace Cpp

variable {o : List Brace}

/-- A line outside of all blocks, without braces at its ends. Braces inside of
it are closed on the line. -/
theorem fits_flush {text : String} {c : Char} (hstart : StartsIn c text)
    (hc : c ≠ ' ' ∧ c ≠ '\x7d' ∧ c ≠ 'n') (h : Inline text) (ho : o.count .block = 0) :
    (Line.flush text).Fits o o := by
  obtain ⟨cs, htext⟩ := List.head?_eq_some_iff.mp hstart
  refine Line.fits_of_matches htext hc.1 (fun _ => hc.2.2) (h o) ?_
  rw [if_neg fun hbrace => hc.2.1 hbrace.1]
  exact ho

theorem nested_paragraph {lines : List Line} (h : Nested o lines o) :
    Nested o (paragraph lines) o := by
  unfold paragraph
  split
  · exact .nil o
  · exact h.append (.single (Line.fits_blank o))

theorem nested_bannerLines (mode : Cpp.Mode) : Nested [] (bannerLines mode) [] := by
  have hpragma : (Line.flush "#pragma once").Fits [] [] :=
    fits_flush rfl (by decide) (fun _ => rfl) rfl
  have hlines : Nested [] (bannerLines .program) [] := by
    unfold bannerLines
    repeat
      first
      | exact .nil _
      | refine .cons (Line.fits_blank _) ?_
      | refine .cons (fits_flush rfl (by decide) (fun _ => rfl) rfl) ?_
  cases mode with
  | program => exact hlines
  | library => exact .cons hpragma hlines

/-- Lines inside of a namespace, of which the brace is closed by the last
line. They have to fit whatever namespaces are around them. -/
theorem nested_inNamespace {names : Names} (hnames : names.IsWord) {lines : List Line}
    (h : ∀ {o : List Brace}, o.count .block = 0 → Nested o lines o) :
    Nested [] (inNamespace names.space? lines) [] := by
  unfold inNamespace
  split
  · exact h rfl
  · next space hspace =>
    have hword := (hnames space hspace).2
    have htail : (Line.flush ("\x7d // namespace " ++ space)).Fits [.space] [] := by
      have hstart : StartsIn '\x7d' "\x7d // namespace " := rfl
      have hclose : Matches [.space] "\x7d // namespace " [] := rfl
      obtain ⟨cs, htext⟩ := List.head?_eq_some_iff.mp (hstart.append space)
      exact Line.fits_of_matches htext (by decide) (fun _ => by decide)
        (hclose.append (inline_of_word hword [])) rfl
    have hinside : Nested [.space] (.blank :: lines) [.space] :=
      .cons (Line.fits_blank _) (h rfl)
    have hend : Nested [.space] [.flush ("\x7d // namespace " ++ space), .blank] [] :=
      .cons htail (.single (Line.fits_blank _))
    exact (Nested.cons (Line.fits_space hword rfl) hinside).append hend

end Cpp

namespace Program

variable {d : Dialect} {library : Bool} {p : Program} {warnings : List (String × String)}

theorem Accepted.isWord (h : p.Accepted d.vocabulary d library warnings) :
    (Names.ofProgram p).IsWord :=
  fun _ hspace => word_library (h.library_of_namespace? hspace)

/-- What a unit imports can be named in its dialect, since it was named there
when the import was read. -/
theorem Accepted.library_of_import (h : p.Accepted d.vocabulary d library warnings) {name : String}
    (hname : name ∈ p.imports) : d.vocabulary.Library name := by
  obtain ⟨-, _, _, -, -, haccepts⟩ := h
  obtain ⟨site, hsite, rfl⟩ := List.mem_map.mp hname
  obtain ⟨node, hmem, hnode⟩ := List.mem_filterMap.mp hsite
  cases node with
  | useLibrary name span =>
    obtain rfl := Option.some.inj hnode
    obtain ⟨_, _, -, -, hlibrary, -⟩ := haccepts.checked_of_mem hmem
    exact hlibrary
  | _ => cases hnode

theorem Accepted.nested_importLines (h : p.Accepted d.vocabulary d library warnings) :
    Nested [] (importLines p) [] := by
  refine nested_paragraph (.of_forall fun line hline => ?_)
  obtain ⟨name, hname, rfl⟩ := List.mem_map.mp hline
  have hstart : StartsIn '#' "#include \"" := rfl
  have hinclude : Inline "#include \"" := fun _ => rfl
  have hend : Inline ".hpp\"" := fun _ => rfl
  exact fits_flush ((hstart.append _).append _) (by decide)
    ((hinclude.append (inline_of_word (word_library (h.library_of_import hname)).2)).append hend)
    rfl

theorem Accepted.nested_functionLines (h : p.Accepted d.vocabulary d library warnings)
    {o : List Brace} (ho : o.count .block = 0) :
    Nested o (functionLines (Names.ofProgram p) p) o := by
  have hnames := h.isWord
  obtain ⟨-, _, _, -, -, haccepts⟩ := h
  refine .flatMap fun f hf => nested_paragraph ?_
  obtain ⟨node, hmem, hnode⟩ := List.mem_filterMap.mp hf
  cases node with
  | function s body =>
    obtain rfl := Option.some.inj hnode
    exact haccepts.nested_libraryPart hnames nofun hmem rfl ho
  | _ => cases hnode

theorem Accepted.nested_variableLines (h : p.Accepted d.vocabulary d library warnings)
    (mode : Cpp.Mode) {o : List Brace} (ho : o.count .block = 0) :
    Nested o (variableLines mode (Names.ofProgram p) p) o := by
  have hnames := h.isWord
  obtain ⟨-, _, _, -, -, haccepts⟩ := h
  cases mode with
  | program => exact .nil o
  | library =>
    refine nested_paragraph ?_
    rw [List.map_eq_flatMap]
    refine .flatMap fun v hv => ?_
    obtain ⟨node, hmem, hnode⟩ := List.mem_filterMap.mp hv
    cases node with
    | declare v =>
      obtain rfl := Option.some.inj hnode
      exact haccepts.nested_libraryPart hnames nofun hmem rfl ho
    | _ => cases hnode

theorem Accepted.nested_mainLines (h : p.Accepted d.vocabulary d library warnings)
    (mode : Cpp.Mode) : Nested [] (mainLines mode (Names.ofProgram p) p) [] := by
  have hnames := h.isWord
  obtain ⟨-, part, F, hfinal, -, haccepts⟩ := h
  cases mode with
  | library => exact .nil []
  | program =>
    have hhead : (Line.flush "int main() \x7b").Fits [] [.block] := by
      have hmatches : Matches [] "int main() \x7b" [.block] := rfl
      exact Line.fits_of_matches (c := 'i') rfl (by decide) (fun _ => by decide) hmatches rfl
    have hreturn : Line.Fits ⟨1, "return 0;"⟩ [.block] [.block] := by
      have hmatches : Matches [.block] "return 0;" [.block] := rfl
      exact Line.fits_of_matches (c := 'r') rfl (by decide) nofun hmatches rfl
    have hbody := haccepts.nested_bodyLines hnames nofun (fun _ => id)
      (show [Brace.block].count .block = 0 + 1 from rfl)
    rw [Part.opened_of_isFinal rfl, Part.opened_of_isFinal hfinal] at hbody
    exact .cons hhead (hbody.append (.cons hreturn (.single (fits_closing rfl))))

/-- The lines of an acceptable unit leave nothing open, as a program and as a
library. Section by section, each leaves open what was open. -/
theorem Accepted.nested_programLines (h : p.Accepted d.vocabulary d library warnings)
    (mode : Cpp.Mode) : Nested [] (programLines mode p) [] := by
  unfold programLines
  have hspace := nested_inNamespace h.isWord fun ho =>
    (h.nested_variableLines mode ho).append (h.nested_functionLines ho)
  exact (((nested_bannerLines mode).append h.nested_importLines).append hspace).append
    (h.nested_mainLines mode)

/-- **The code of an acceptable unit is well nested**: its braces are
balanced, and each line is indented by the blocks around it. -/
theorem Accepted.wellNested (h : p.Accepted d.vocabulary d library warnings) (mode : Cpp.Mode) :
    WellNested (p.cpp mode) :=
  (h.nested_programLines mode).wellNested

end Program

/-- **Whatever is compiled is well nested**: the code of a unit, and the
headers of the libraries it needs, from any loader. -/
theorem compileUnit_wellNested {σ : Type} (loader : Loader (StateM σ)) (d : Dialect)
    (mode : Cpp.Mode) (source : String) {s s' : σ} {unit : CompiledUnit}
    (h : (compileUnit loader d mode source).run.run s = (.ok unit, s')) :
    WellNested unit.code ∧ ∀ header ∈ unit.libraries, WellNested header.code := by
  have hends : Ends (fun unit : CompiledUnit => WellNested unit.code ∧
      ∀ header ∈ unit.libraries, WellNested header.code) (compileUnit loader d mode source) := by
    unfold compileUnit
    refine (Ends.ofExcept (Program.ofText d mode.isLibrary source)).bind fun result hread => ?_
    obtain ⟨program, warnings⟩ := result
    refine (loader.resolve_made program).bind fun headers hheaders => .pure ⟨?_, ?_⟩
    · exact (Program.accepted_of_ofText hread).wellNested mode
    · intro header hmem
      obtain ⟨unit, warnings, hunit, hcode⟩ := hheaders header hmem
      rw [hcode]
      exact (Program.accepted_of_ofText hunit).wellNested .library
  exact hends s unit s' h

/-- A library that can be read once, with a namespace, an array and a
function. -/
def singleShelf : Shelf :=
  [("m", .single
    "init @m\ndec i32 a [ ] 2 -> \x7b 1 , 2 \x7d\nfnc empty f : :\nout a[1]\nend")]

/-- A program with a block in every branch, and a call of that library. -/
def branchingSource : String :=
  "lib @m\nif 1 == 1\nrun 2\n@m::f : :\nelif 0 == 1\nloop i 2\nout i\nroll\nend"

theorem compileUnit_wellNested_library :
    ∃ unit s', (compileUnit (Shelf.loader singleShelf) .maple .program branchingSource).run.run [] =
        (.ok unit, s') ∧
      unit.libraries.map Header.name = ["m"] ∧
      WellNested unit.code ∧ ∀ header ∈ unit.libraries, WellNested header.code := by
  have hnames : ((compileUnit (Shelf.loader singleShelf) .maple .program
      branchingSource).run.run []).1.toOption.map (·.libraries.map Header.name) =
      some ["m"] := by decide +kernel
  cases hrun : (compileUnit (Shelf.loader singleShelf) .maple .program
      branchingSource).run.run [] with
  | mk result s' =>
    rw [hrun] at hnames
    cases result with
    | error e => cases hnames
    | ok unit =>
      exact ⟨unit, s', rfl, Option.some.inj hnames, compileUnit_wellNested _ _ _ _ hrun⟩

end MapleCompiler
