import MapleCompiler.Proofs.Emission.Nesting
import MapleCompiler.Proofs.Text.Lines

/-!
# The includes of generated code

Generated code includes a file next to it on a line of its own, with the name of the
file in quotes. Such lines are written for what the unit imports. This module says
that there are no others: whoever reads the code line by line, and knows nothing of
how it was made, finds only headers of imported libraries
(`Program.exists_import_of_include`).

A text can be split into lines in another way than it was written, so two things
are needed. No line that was written has a line feed inside (`Cpp.ofText_render`);
this is so because a unit that was accepted has no name with one. And of the
lines that were written those for imports alone begin with `#include` and a quote
(`Cpp.exists_import_of_isPrefix`): whatever else begins with `#` is in the banner.
-/

namespace MapleCompiler

namespace Cpp

/-- The line that includes a file next to the code. -/
def includeLine (file : String) : String := "#include \"" ++ file ++ "\""

/-! ## Lines as they are read -/

/-- **The lines of written code are those that were written**, unless one of
them has a line feed inside. A carriage return at the end of a line is
lost. -/
theorem ofText_render {lines : List Line} (h : ∀ line ∈ lines, '\n' ∉ line.chars) :
    Lines.ofText (render lines) =
      lines.map fun line => String.ofList (Lines.dropReturn line.chars) := by
  have hpieces : Lines.ofPieces (Lines.splitAt '\n' (render lines).toList) =
      lines.map fun line => Lines.dropReturn line.chars := by
    induction lines with
    | nil => rfl
    | cons line lines ih =>
      obtain ⟨hline, hlines⟩ := List.forall_mem_cons.mp h
      rw [toList_render_cons, Lines.splitAt_append_cons hline,
        Lines.ofPieces_cons (Lines.splitAt_ne_nil _ _), ih hlines, List.map_cons]
  rw [Lines.ofText, hpieces, List.map_map]
  rfl

theorem Nested.single_of_mem {o o' : List Brace} {lines : List Line} (h : Nested o lines o') :
    ∀ line ∈ lines, '\n' ∉ line.chars := by
  induction h with
  | nil => exact List.forall_mem_nil _
  | cons hline _ ih => exact List.forall_mem_cons.mpr ⟨hline.single, ih⟩

/-! ## Lines of code -/

/-- A line that does not begin with a `#`. -/
def Line.IsCode (line : Line) : Prop := line.chars.head? ≠ some '#'

namespace Line

theorem isCode_of_startsIn {text : String} {c : Char} (h : StartsIn c text) (hc : c ≠ '#') :
    (flush text).IsCode := fun hhead =>
  hc (Option.some.inj (h.symm.trans hhead))

theorem isCode_of_beginsWord {text : String} (h : BeginsWord text) : (flush text).IsCode := by
  obtain ⟨c, hword, hstart⟩ := h
  refine isCode_of_startsIn hstart ?_
  rintro rfl
  cases hword

theorem isCode_of_depth {line : Line} (h : 0 < line.depth) : line.IsCode := by
  obtain ⟨depth, hdepth⟩ := Nat.exists_eq_succ_of_ne_zero h.ne'
  unfold IsCode chars
  rw [toList_indentation, hdepth, Nat.succ_eq_add_one, Nat.mul_succ, List.replicate_succ]
  nofun

theorem isCode_blank : blank.IsCode := nofun

end Line

/-- **What a line of a body is**: that of a node, or a brace that closes one,
and it stands no less deep than the body. By induction on the nodes and their
bodies. -/
theorem mem_bodyLines (names : Names) (nodes : List Node) {depth : Nat} {line : Line}
    (h : line ∈ bodyLines names depth nodes) :
    depth ≤ line.depth ∧
      (line.text = "\x7d" ∨ ∃ node, isWritten node = true ∧ line.text = lineText names node) := by
  induction nodes using Node.bodyInduction generalizing depth with
  | nil => cases h
  | cons node rest ihbody ihrest =>
    rw [bodyLines, nodeLines_eq names depth [], List.mem_append, List.mem_append,
      List.mem_append] at h
    obtain (hopening | hbody | hclosing) | hrest := h
    · unfold opening at hopening
      split at hopening
      · next hwritten =>
        obtain rfl := List.mem_singleton.mp hopening
        exact ⟨Nat.le_refl depth, .inr ⟨node, hwritten, rfl⟩⟩
      · cases hopening
    · exact ⟨Nat.le_of_succ_le (ihbody hbody).1, (ihbody hbody).2⟩
    · unfold closing at hclosing
      split at hclosing
      · obtain rfl := List.mem_singleton.mp hclosing
        exact ⟨Nat.le_refl depth, .inl rfl⟩
      · obtain rfl := List.mem_singleton.mp hclosing
        exact ⟨Nat.le_refl depth, .inl rfl⟩
      · cases hclosing
    · exact ihrest hrest

theorem isCode_of_mem_bodyLines (names : Names) (nodes : List Node) (depth : Nat) :
    ∀ line ∈ bodyLines names (depth + 1) nodes, line.IsCode := fun _ hline =>
  Line.isCode_of_depth (Nat.lt_of_succ_le (Nat.le_trans (Nat.succ_le_succ (Nat.zero_le depth))
    (mem_bodyLines names nodes hline).1))

theorem isCode_brace : (Line.flush "\x7d").IsCode :=
  Line.isCode_of_startsIn (show StartsIn '\x7d' "\x7d" from rfl) (by decide)

/-! ## Sections of a file -/

theorem isCode_paragraph {lines : List Line} (h : ∀ line ∈ lines, line.IsCode) :
    ∀ line ∈ paragraph lines, line.IsCode := by
  unfold paragraph
  split
  · exact List.forall_mem_nil _
  · exact List.forall_mem_append.mpr ⟨h, List.forall_mem_singleton.mpr Line.isCode_blank⟩

theorem isCode_variableLines (mode : Mode) (names : Names) (p : Program) :
    ∀ line ∈ variableLines mode names p, line.IsCode := by
  cases mode with
  | program => exact List.forall_mem_nil _
  | library =>
    refine isCode_paragraph fun line hline => ?_
    obtain ⟨v, -, rfl⟩ := List.mem_map.mp hline
    exact Line.isCode_of_beginsWord (beginsWord_declaration names v)

theorem isCode_functionLines (names : Names) (p : Program) :
    ∀ line ∈ functionLines names p, line.IsCode := by
  intro line hline
  obtain ⟨⟨s, body⟩, -, hline⟩ := List.mem_flatMap.mp hline
  have hhead : BeginsWord (functionHead s) := by
    unfold functionHead
    simp only [String.append_assoc]
    exact (beginsWord_type _).append _
  refine isCode_paragraph ?_ line hline
  rw [nodeLines]
  exact List.forall_mem_cons.mpr ⟨Line.isCode_of_beginsWord hhead,
    List.forall_mem_append.mpr ⟨isCode_of_mem_bodyLines names body 0,
      List.forall_mem_singleton.mpr isCode_brace⟩⟩

theorem isCode_mainLines (mode : Mode) (names : Names) (p : Program) :
    ∀ line ∈ mainLines mode names p, line.IsCode := by
  cases mode with
  | library => exact List.forall_mem_nil _
  | program =>
    have hhead : StartsIn 'i' "int main() \x7b" := rfl
    exact List.forall_mem_cons.mpr ⟨Line.isCode_of_startsIn hhead (by decide),
      List.forall_mem_append.mpr ⟨isCode_of_mem_bodyLines names _ 0,
        List.forall_mem_cons.mpr ⟨Line.isCode_of_depth Nat.one_pos,
          List.forall_mem_singleton.mpr isCode_brace⟩⟩⟩

theorem isCode_inNamespace (space? : Option String) {lines : List Line}
    (h : ∀ line ∈ lines, line.IsCode) : ∀ line ∈ inNamespace space? lines, line.IsCode := by
  cases space? with
  | none => exact h
  | some space =>
    have hopen : StartsIn 'n' "namespace " := rfl
    have hclose : StartsIn '\x7d' "\x7d // namespace " := rfl
    have hfirst : (Line.flush ("namespace " ++ space ++ " \x7b")).IsCode :=
      Line.isCode_of_startsIn ((hopen.append space).append _) (by decide)
    have hlast : (Line.flush ("\x7d // namespace " ++ space)).IsCode :=
      Line.isCode_of_startsIn (hclose.append space) (by decide)
    exact List.forall_mem_append.mpr ⟨List.forall_mem_append.mpr
      ⟨List.forall_mem_cons.mpr ⟨hfirst, List.forall_mem_singleton.mpr Line.isCode_blank⟩, h⟩,
      List.forall_mem_cons.mpr ⟨hlast, List.forall_mem_singleton.mpr Line.isCode_blank⟩⟩

/-- The beginning of a line that includes a file next to the code. -/
def includeMark : List Char := "#include \"".toList

theorem Line.IsCode.not_include {line : Line} (h : line.IsCode) : ¬includeMark <+: line.chars := by
  rintro ⟨rest, hrest⟩
  exact h (by rw [← hrest]; rfl)

/-- The banner includes nothing that is next to the code. -/
theorem bannerLines_not_include (mode : Mode) :
    ∀ line ∈ bannerLines mode, ¬includeMark <+: line.chars := by
  cases mode <;> decide +kernel

/-- **Only the lines for imports include files next to the code.** By the
section of the code that the line is in. -/
theorem exists_import_of_isPrefix {mode : Mode} {p : Program} {line : Line}
    (h : line ∈ programLines mode p) (hmark : includeMark <+: line.chars) :
    ∃ name ∈ p.imports, line = .flush (includeLine (name ++ ".hpp")) := by
  unfold programLines at h
  rw [List.mem_append, List.mem_append, List.mem_append] at h
  obtain ((hbanner | himport) | hspace) | hmain := h
  · exact absurd hmark (bannerLines_not_include mode line hbanner)
  · unfold importLines paragraph at himport
    split at himport
    · cases himport
    · obtain hline | hblank := List.mem_append.mp himport
      · obtain ⟨name, hname, rfl⟩ := List.mem_map.mp hline
        refine ⟨name, hname, congrArg Line.flush ?_⟩
        rw [includeLine, String.append_assoc, String.append_assoc, String.append_assoc]
        rfl
      · rw [List.mem_singleton.mp hblank] at hmark
        exact absurd hmark Line.isCode_blank.not_include
  · have hcode := isCode_inNamespace (Names.ofProgram p).space? (List.forall_mem_append.mpr
      ⟨isCode_variableLines mode _ p, isCode_functionLines _ p⟩) line hspace
    exact absurd hmark hcode.not_include
  · exact absurd hmark (isCode_mainLines mode _ p line hmain).not_include

end Cpp

open Cpp in
/-- **Every include of a file next to the code is that of an imported
header.** -/
theorem Program.exists_import_of_include {d : Dialect} {library : Bool} {p : Program}
    {warnings : List (String × String)} (h : p.Accepted d.vocabulary d library warnings)
    {mode : Cpp.Mode} {file : String} (hline : includeLine file ∈ Lines.ofText (p.cpp mode)) :
    ∃ name ∈ p.imports, file = headerFile name := by
  have hchars (name : String) :
      (includeLine name).toList = includeMark ++ (name.toList ++ ['\"']) := by
    rw [includeLine, String.toList_append, String.toList_append, List.append_assoc]
    rfl
  rw [Program.cpp, ofText_render (h.nested_programLines mode).single_of_mem] at hline
  obtain ⟨line, hmem, htext⟩ := List.mem_map.mp hline
  have hdrop : Lines.dropReturn line.chars = (includeLine file).toList := by
    rw [← htext, String.toList_ofList]
  have hmark : includeMark <+: line.chars := by
    obtain ⟨kept, hkept, hdropped⟩ | ⟨-, hdropped⟩ := Lines.dropReturn_cases line.chars
    · rw [hkept, ← hdropped, hdrop, hchars, List.append_assoc]
      exact List.prefix_append _ _
    · rw [← hdropped, hdrop, hchars]
      exact List.prefix_append _ _
  obtain ⟨name, hname, rfl⟩ := exists_import_of_isPrefix hmem hmark
  refine ⟨name, hname, ?_⟩
  -- the line ends in a quote, so nothing was dropped
  have hwhole : (Line.flush (includeLine (headerFile name))).chars =
      (includeLine (headerFile name)).toList := rfl
  have hkept : Lines.dropReturn (includeLine (headerFile name)).toList =
      (includeLine (headerFile name)).toList := by
    rw [Lines.dropReturn, hchars, ← List.append_assoc, List.getLast?_concat, if_neg (by decide)]
  have heq : (includeLine (headerFile name)).toList = (includeLine file).toList := by
    rw [← hkept, ← hwhole]
    exact hdrop
  rw [hchars, hchars] at heq
  exact (String.toList_inj.mp (List.append_cancel_right (List.append_cancel_left heq))).symm

end MapleCompiler
