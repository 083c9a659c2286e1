import MapleCompiler.Program.Equality
import MapleCompiler.Proofs.Library.Location
import MapleCompiler.Proofs.Scoping.Resolution
import MapleCompiler.Proofs.Scoping.Visibility

/-!
# Names of the language and names of the code

Names are declared in one flat table for the whole unit, whereas generated code
has a block for every body and puts functions outside of `main`. So the two
notions of scope differ, and this module says how. A name that is used has one
declaration, somewhere before the use (`Program.Accepted.declared_before`). The
code may use it there exactly if the block of the declaration encloses the use
(`Program.Accepted.sees_iff`). This is *not* always so: a variable declared in a
branch and used after it is accepted, although its block is closed by then, and
so is a variable of the unit that is used in a function.
-/

namespace MapleCompiler

namespace Cpp

/-! ## Names in the text of a line -/

/-- A text that mentions a name. -/
def Mentions (text x : String) : Prop := ∃ before after, text = before ++ x ++ after

variable {x y z : String}

theorem mentions_self (x : String) : Mentions x x := ⟨"", "", by simp⟩

theorem Mentions.append (h : Mentions y x) (z : String) : Mentions (y ++ z) x := by
  obtain ⟨before, after, rfl⟩ := h
  exact ⟨before, after ++ z, String.append_assoc⟩

theorem Mentions.prepend (h : Mentions y x) (z : String) : Mentions (z ++ y) x := by
  obtain ⟨before, after, rfl⟩ := h
  exact ⟨z ++ before, after, by simp only [String.append_assoc]⟩

theorem mentions_commaSeparated {items : List String} (h : x ∈ items) :
    Mentions (commaSeparated items) x := by
  induction items with
  | nil => cases h
  | cons item items ih =>
    cases items with
    | nil =>
      obtain rfl := List.mem_singleton.mp h
      rw [commaSeparated, String.intercalate_singleton]
      exact mentions_self x
    | cons next items =>
      unfold commaSeparated
      rw [String.intercalate_cons_cons]
      obtain rfl | h := List.mem_cons.mp h
      · exact ((mentions_self x).append _).append _
      · exact (ih h).prepend _

theorem mentions_element (name : String) (index? : Option String) {x : String}
    (h : x ∈ name :: index?.toList) : Mentions (element name index?) x := by
  cases index? with
  | none =>
    obtain rfl := List.mem_singleton.mp h
    exact mentions_self x
  | some index =>
    obtain rfl | h := List.mem_cons.mp h
    · exact (((mentions_self x).append _).append _).append _
    · obtain rfl := List.mem_singleton.mp h
      exact ((mentions_self x).prepend _).append _

theorem mentions_plainCall {c : Call} (h : x ∈ c.arguments) : Mentions (plainCall c) x :=
  ((mentions_commaSeparated h).prepend _).append _

theorem mentions_call {names : Names} {c : Call} (h : x ∈ c.arguments) :
    Mentions (call names c) x := by
  unfold call
  split
  · split
    · exact (mentions_plainCall h).prepend _
    · exact mentions_plainCall h
  · exact mentions_plainCall h

theorem mentions_declaration {names : Names} {v : Declaration}
    (h : x ∈ Node.initializerUses v.initializer) : Mentions (declaration names v) x := by
  obtain ⟨type, name, initializer, constant⟩ := v
  cases initializer with
  | value text =>
    obtain rfl := List.mem_singleton.mp h
    exact ((mentions_self x).prepend _).append _
  | call c => exact ((mentions_call h).prepend _).append _
  | array size values => exact ((mentions_commaSeparated h).prepend _).append _

theorem mentions_assignedValue {value : AssignedValue} (h : x ∈ Node.assignedUses value) :
    Mentions (assignedValue value) x := by
  cases value with
  | plain text =>
    obtain rfl := List.mem_singleton.mp h
    exact mentions_self x
  | copied array index literal =>
    obtain rfl := List.mem_singleton.mp h
    exact mentions_self x
  | element array index => exact mentions_element array (some index) h

theorem mentions_assignment {a : Assignment} (h : x ∈ (Node.assign a).uses) :
    Mentions (assignment a) x := by
  have h : x ∈ a.target :: a.index?.toList ∨ x ∈ Node.assignedUses a.value := by
    simpa [Node.uses, or_assoc] using h
  obtain h | h := h
  · exact (((mentions_element _ _ h).append _).append _).append _
  · exact ((mentions_assignedValue h).prepend _).append _

theorem mentions_condition {c : Condition} (h : x ∈ [c.left, c.right]) :
    Mentions (condition c) x := by
  obtain rfl | h := List.mem_cons.mp h
  · iterate 4 refine .append ?_ _
    exact mentions_self _
  · obtain rfl := List.mem_singleton.mp h
    exact (mentions_self _).prepend _

theorem mentions_calculation {c : Calculation} (h : x ∈ (Node.calculate c).uses) :
    Mentions (calculation c) x := by
  unfold calculation
  cases hd : c.destination? with
  | none =>
    have h : x = c.left ∨ x = c.right := by simpa [Node.uses, hd] using h
    obtain rfl | rfl := h
    · iterate 5 refine .append ?_ _
      exact mentions_self _
    · exact ((mentions_self _).prepend _).append _
  | some destination =>
    have h : x = c.left ∨ x = c.right ∨ x = destination := by simpa [Node.uses, hd] using h
    obtain rfl | rfl | rfl := h
    · iterate 5 refine .append ?_ _
      exact (mentions_self _).prepend _
    · exact ((mentions_self _).prepend _).append _
    · iterate 7 refine .append ?_ _
      exact mentions_self _

/-- **The line of a node mentions the operands that the node uses.** By cases
on the node. -/
theorem mentions_line {names : Names} {node : Node} (h : x ∈ node.uses) :
    Mentions (lineText names node) x := by
  cases node with
  | run count body =>
    obtain rfl := List.mem_singleton.mp h
    exact ((mentions_self x).prepend _).append _
  | declare v => exact mentions_declaration h
  | assign a => exact mentions_assignment h
  | output name index? => exact ((mentions_element _ _ h).prepend _).append _
  | ifThen c body => exact ((mentions_condition h).prepend _).append _
  | elseIf c body => exact ((mentions_condition h).prepend _).append _
  | loop counter start stop body =>
    show Mentions (loopHead counter start stop) x
    unfold loopHead
    obtain rfl | h := List.mem_cons.mp h
    · iterate 7 refine .append ?_ _
      exact (mentions_self x).prepend _
    · obtain rfl := List.mem_singleton.mp h
      iterate 3 refine .append ?_ _
      exact (mentions_self x).prepend _
  | save name =>
    obtain rfl := List.mem_singleton.mp h
    exact ((mentions_self x).prepend _).append _
  | restore name =>
    obtain rfl := List.mem_singleton.mp h
    exact ((mentions_self x).prepend _).append _
  | giveBack value? =>
    obtain rfl : value? = some x := Option.mem_toList.mp h
    exact ((mentions_self x).prepend _).append _
  | call c => exact (mentions_call h).append _
  | calculate c => exact mentions_calculation h
  | qualifiedCall library c => exact ((mentions_plainCall h).prepend _).append _
  | otherwise body => cases h
  | endIf => cases h
  | endLoop => cases h
  | function s body => cases h
  | useLibrary name span => cases h
  | openNamespace name => cases h

/-- A node that uses something is written: imports and namespaces use
nothing. -/
theorem isWritten_of_uses {node : Node} (h : x ∈ node.uses) : isWritten node = true := by
  cases node <;> first | rfl | cases h

end Cpp

/-! ## Compiled units -/

open Cpp in
/-- **Where the names of generated code are in scope.** Every operand that a
node uses is on the line of the node. If it is a name, and no binding around
the node, it is declared at a site before, and at no other site. The
declaration of a variable has its line too; the line of a use stands in the
block of that line, after it, exactly if the use comes after the declaration
and the block of the declaration encloses it. -/
theorem compileUnit_sees_iff (loader : Loader Id) (d : Dialect) (source : String)
    (unit : CompiledUnit) (h : compileUnit loader d .program source = .ok unit) :
    ∃ p warnings, Program.ofText d false source = .ok (p, warnings) ∧
      unit.code = render p.trace.lines ∧
      (∀ σ x, p.Uses σ x → ∃ line, (some σ, line) ∈ p.trace ∧ Mentions line.text x) ∧
      (∀ σ x, d.IsName x → p.Uses σ x → ∃ δ, δ < σ ∧ p.Declares δ x) ∧
      (∀ δ δ' x, p.Declares δ x → p.Declares δ' x → δ = δ') ∧
      ∀ δ σ v, p.at? δ = some (.declare v) → p.Uses σ v.name →
        (∃ depth, (some δ, ⟨depth, declaration (Names.ofProgram p) v⟩) ∈ p.trace) ∧
          (Sees p.trace δ σ ↔ δ < σ ∧ p.Encloses δ σ) := by
  obtain ⟨p, warnings, headers, hread, -, rfl⟩ := compileUnit_eq_ok.mp h
  have haccepted := Program.accepted_of_ofText hread
  refine ⟨p, warnings, hread, ?_, ?_, ?_, ?_, ?_⟩
  · rw [p.lines_trace, ← Program.cpp]
  · rintro σ x ⟨node, hσ, hx, -⟩
    obtain ⟨depth, hline⟩ := p.exists_mem_trace hσ (isWritten_of_uses hx)
    exact ⟨_, hline, mentions_line hx⟩
  · intro σ x hx huse
    exact haccepted.declared_before hx huse
  · intro δ δ' x hδ hδ'
    exact haccepted.declares_unique hδ hδ'
  · rintro δ σ v hδ ⟨node, hσ, hx, -⟩
    exact ⟨p.exists_mem_trace hδ rfl, haccepted.sees_iff hδ hσ (isWritten_of_uses hx)⟩

/-- A variable of the unit that is used in a function and in a branch. -/
def sharedVariable : Program :=
  ⟨[.declare ⟨.i32, "g", .value "1", true⟩,
    .function ⟨.i32, "f", []⟩ [.giveBack (some "g")],
    .ifThen ⟨"g", .equal, "1"⟩ [.output "g" none], .endIf]⟩

open Cpp in
/-- The branch sees the variable, and the function does not, although both of
them come later in the text and use it. -/
theorem compileUnit_sees_iff_branch :
    ∃ unit, compileUnit (Shelf.pureLoader []) .maple .program
        "dec i32 g 1\nfnc i32 f : :\nrtn g\nend\nif g == 1\nout g\nend" = .ok unit ∧
      unit.code = render sharedVariable.trace.lines ∧
      sharedVariable.Uses [2, 0] "g" ∧ Sees sharedVariable.trace [0] [2, 0] ∧
      sharedVariable.Uses [1, 0] "g" ∧ ¬Sees sharedVariable.trace [0] [1, 0] := by
  have hread : Program.ofText .maple false
      "dec i32 g 1\nfnc i32 f : :\nrtn g\nend\nif g == 1\nout g\nend" =
      .ok (sharedVariable, []) := by decide +kernel
  have hunit : compileUnit (Shelf.pureLoader []) .maple .program
      "dec i32 g 1\nfnc i32 f : :\nrtn g\nend\nif g == 1\nout g\nend" =
      .ok ⟨sharedVariable.cpp .program, [], []⟩ :=
    compileUnit_eq_ok.mpr ⟨_, _, _, hread, rfl, rfl⟩
  obtain ⟨p, warnings, hread', hcode, -, -, -, hsees⟩ := compileUnit_sees_iff _ _ _ _ hunit
  obtain ⟨rfl, -⟩ := Prod.mk.inj (Except.ok.inj (hread.symm.trans hread'))
  have hbranch : sharedVariable.Uses [2, 0] "g" := ⟨_, rfl, .head _, by decide⟩
  have hfunction : sharedVariable.Uses [1, 0] "g" := ⟨_, rfl, .head _, by decide⟩
  refine ⟨_, hunit, hcode, hbranch, ?_, hfunction, ?_⟩
  · exact (hsees [0] [2, 0] _ rfl hbranch).2.mpr (by decide)
  · exact fun h => absurd ((hsees [0] [1, 0] _ rfl hfunction).2.mp h) (by decide)

/-- A variable that is declared in a branch and used after it. -/
def escapingVariable : Program :=
  ⟨[.ifThen ⟨"1", .equal, "1"⟩ [.declare ⟨.i32, "x", .value "5", true⟩], .endIf,
    .output "x" none]⟩

open Cpp in
/-- **A variable can be used outside of its block**: the text is compiled, and
in the code of `main` the block of the variable is closed before the use. -/
theorem compileUnit_not_sees :
    compileUnit (Shelf.pureLoader []) .maple .program "if 1 == 1\ndec i32 x 5\nend\nout x" =
        .ok ⟨render escapingVariable.trace.lines, [], []⟩ ∧
      escapingVariable.Declares [0, 0] "x" ∧ escapingVariable.Uses [2] "x" ∧
      (mainTrace (Names.ofProgram escapingVariable) escapingVariable.nodes).lines =
        [.flush "int main() \x7b", ⟨1, "if (1 == 1) \x7b"⟩, ⟨2, "const int32_t x = 5;"⟩,
          ⟨1, "\x7d"⟩, ⟨1, "std::cout << x << std::endl;"⟩, ⟨1, "return 0;"⟩, .flush "\x7d"] ∧
      ¬Sees escapingVariable.trace [0, 0] [2] ∧ ¬escapingVariable.Encloses [0, 0] [2] := by
  have hread : Program.ofText .maple false "if 1 == 1\ndec i32 x 5\nend\nout x" =
      .ok (escapingVariable, []) := by decide +kernel
  have hencloses : ¬escapingVariable.Encloses [0, 0] [2] := by decide
  refine ⟨?_, ⟨_, rfl, rfl⟩, ⟨_, rfl, .head _, by decide⟩, by decide +kernel, ?_,
    hencloses⟩
  · rw [escapingVariable.lines_trace, ← Program.cpp]
    exact compileUnit_eq_ok.mpr ⟨_, _, _, hread, rfl, rfl⟩
  · intro h
    exact hencloses (((Program.accepted_of_ofText hread).sees_iff rfl rfl rfl).mp h).2

end MapleCompiler
