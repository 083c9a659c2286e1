import MapleCompiler.Program.Equality
import MapleCompiler.Proofs.Acceptance.Shape
import MapleCompiler.Proofs.Library.Effects
import MapleCompiler.Proofs.Scoping.Agreement
import MapleCompiler.Proofs.Scoping.Calls

/-!
# The order of a header

A header does not keep the order of its text. The variables of the library come
first, in the order of the text, and then the functions, in theirs. Two lines of
a header are therefore in the order of the text if they are both in functions or
both outside, and else the one outside comes first (`Program.HeaderOrder`).

For the names that the lines mention this means:

* a variable of the library comes before all lines that use it, since those
  outside of functions are checked to follow it in the text;
* the line that opens a function comes before a call of it exactly if the call is
  in a function and later in the text. A variable that starts with a call comes
  before the function, wherever the two are in the text, and a function that calls
  one further down comes before it too.

Main result: this is so for a unit that is compiled as a library, and for all
libraries that a unit needs (`compiled_header_order`). A call that comes before
the function it calls is in `compileUnit_call_before_function`.
-/

namespace MapleCompiler

/-- In a list that is ordered by a relation, one member stands before another
if it is related to it. -/
theorem pair_sublist_iff {α : Type} {R : α → α → Prop} (hR : ∀ a b, R a b → ¬R b a) {l : List α}
    (h : l.Pairwise R) {a b : α} : [a, b].Sublist l ↔ a ∈ l ∧ b ∈ l ∧ R a b := by
  constructor
  · intro hsub
    refine ⟨hsub.subset (by simp), hsub.subset (by simp), ?_⟩
    exact List.rel_of_pairwise_cons (h.sublist hsub) (List.mem_singleton.mpr rfl)
  · rintro ⟨ha, hb, hab⟩
    obtain ⟨before, after, rfl⟩ := List.append_of_mem ha
    obtain ⟨-, -, hbefore⟩ := List.pairwise_append.mp h
    refine List.Sublist.trans (.cons_cons a ?_) (List.sublist_append_right before _)
    rw [List.singleton_sublist]
    obtain hb | hb := List.mem_append.mp hb
    · exact absurd (hbefore b hb a List.mem_cons_self) (hR a b hab)
    · obtain rfl | hb := List.mem_cons.mp hb
      · exact absurd hab (hR b b hab)
      · exact hb

namespace Cpp

namespace Trace

/-- **The line of one node comes before that of another.** -/
def Precedes (t : Trace) (δ σ : Site) : Prop :=
  ∃ above line between line' below,
    t = above ++ (some δ, line) :: (between ++ (some σ, line') :: below)

/-- Lines are in the order of their sites: one comes before the other exactly
if the two sites are found in this order in the trace. -/
theorem precedes_iff_sublist {t : Trace} {δ σ : Site} :
    t.Precedes δ σ ↔ [δ, σ].Sublist t.sites := by
  constructor
  · rintro ⟨above, line, between, line', below, rfl⟩
    rw [sites_append, sites_cons_some, sites_append, sites_cons_some]
    refine List.Sublist.trans (.cons_cons δ ?_) (List.sublist_append_right _ _)
    exact List.singleton_sublist.mpr (List.mem_append_right _ List.mem_cons_self)
  · intro h
    induction t with
    | nil => cases h
    | cons e t ih =>
      have hlater (h : [δ, σ].Sublist (sites t)) : Precedes (e :: t) δ σ := by
        obtain ⟨above, line, between, line', below, rfl⟩ := ih h
        exact ⟨e :: above, line, between, line', below, rfl⟩
      obtain ⟨site?, line⟩ := e
      cases site? with
      | none => exact hlater h
      | some τ =>
        rw [sites_cons_some] at h
        cases h with
        | cons _ h => exact hlater h
        | cons_cons _ h =>
          obtain ⟨line', hmem⟩ := mem_sites.mp (List.singleton_sublist.mp h)
          obtain ⟨between, below, rfl⟩ := List.append_of_mem hmem
          exact ⟨[], line, between, line', below, rfl⟩

end Trace

/-! ## The trace of a header -/

/-- Whether a node declares a variable. -/
def isDeclaration : Node → Bool
  | .declare _ => true
  | _ => false

theorem bodyLines_declarations (names : Names) (nodes : List Node) :
    bodyLines names 0 (nodes.filter isDeclaration) =
      (declarations nodes).map fun v => .flush (declaration names v) := by
  induction nodes with
  | nil => rfl
  | cons node rest ih =>
    cases node with
    | declare v =>
      rw [List.filter_cons_of_pos rfl, bodyLines, ih]
      rfl
    | _ => exact ih

end Cpp

namespace Program

open Cpp

/-- The trace of the variables of a unit. -/
def variableTrace (p : Program) : Trace :=
  traceList isDeclaration (Names.ofProgram p) 0 [] 0 p.nodes

/-- **The trace of a header**: the variables, and then the functions. -/
def headerTrace (p : Program) : Trace :=
  .plain (bannerLines .library ++ importLines p ++
    (inNamespace (Names.ofProgram p).space? []).take 2) ++ (p.variableTrace ++
      (.plain (if p.variableTrace.lines.isEmpty then [] else [.blank]) ++
        (traceFunctions (Names.ofProgram p) 0 p.nodes ++
          .plain ((inNamespace (Names.ofProgram p).space? []).drop 2))))

variable (p : Program)

/-- **The lines of the trace are those of the header.** -/
theorem lines_headerTrace : p.headerTrace.lines = programLines .library p := by
  have hvariables : p.variableTrace.lines =
      (declarations p.nodes).map fun v => .flush (declaration (Names.ofProgram p) v) := by
    rw [variableTrace, lines_traceList, bodyLines_declarations]
  have hparagraph (lines : List Line) :
      paragraph lines = lines ++ if lines.isEmpty then [] else [.blank] := by
    unfold paragraph
    cases lines <;> rfl
  unfold headerTrace programLines
  dsimp only
  rw [inNamespace_eq (Names.ofProgram p).space? (_ ++ _), variableLines, ← hvariables, hparagraph]
  simp [lines_traceFunctions, mainLines]

theorem sites_headerTrace :
    p.headerTrace.sites = p.variableTrace.sites ++
      (traceList Node.isFunction (Names.ofProgram p) 0 [] 0 p.nodes).sites := by
  unfold headerTrace
  simp [sites_traceFunctions]

theorem mem_headerTrace {σ : Site} {line : Line} :
    (some σ, line) ∈ p.headerTrace ↔ (some σ, line) ∈ p.variableTrace ∨
      (some σ, line) ∈ traceList Node.isFunction (Names.ofProgram p) 0 [] 0 p.nodes := by
  unfold headerTrace
  simp [mem_traceFunctions]

/-- **The order of a header**: what stands outside of functions comes first;
apart from that, it is the order of the text. -/
def HeaderOrder (δ σ : Site) : Prop :=
  p.inFunction δ = false ∧ p.inFunction σ = true ∨ p.inFunction δ = p.inFunction σ ∧ δ < σ

theorem HeaderOrder.asymm {p : Program} (δ σ : Site) (h : p.HeaderOrder δ σ) :
    ¬p.HeaderOrder σ δ := by
  unfold HeaderOrder at h ⊢
  cases hδ : p.inFunction δ <;> cases hσ : p.inFunction σ <;> simp_all [le_of_lt]

/-- If all nodes that are kept are functions, the sites of their trace are in
functions; if none is, they are outside. -/
theorem inFunction_of_mem_sites {keep : Node → Bool} {inside : Bool}
    (hkeep : ∀ node, keep node = true → Node.isFunction node = inside) {names : Names}
    {depth : Nat} {σ : Site} (hσ : σ ∈ (traceList keep names depth [] 0 p.nodes).sites) :
    p.inFunction σ = inside := by
  obtain ⟨j, ρ, first, -, rfl, hfirst, hfirst', -⟩ := (mem_sites_traceList _).mp hσ
  rw [List.nil_append, Nat.zero_add, inFunction, hfirst]
  exact hkeep first hfirst'

/-- **The lines of a header are in its order.** The variables come first and
are in the order of the text, and so are the functions after them. -/
theorem pairwise_sites_headerTrace : p.headerTrace.sites.Pairwise p.HeaderOrder := by
  have hvariable : ∀ node, isDeclaration node = true → Node.isFunction node = false := by
    intro node hnode
    cases node <;> first | rfl | cases hnode
  have hfunction : ∀ node, Node.isFunction node = true → Node.isFunction node = true :=
    fun _ => id
  -- in the trace of one kind of nodes, the order is that of the text
  have hsection {keep : Node → Bool} {inside : Bool}
      (hkeep : ∀ node, keep node = true → Node.isFunction node = inside) :
      (traceList keep (Names.ofProgram p) 0 [] 0 p.nodes).sites.Pairwise p.HeaderOrder := by
    refine List.Pairwise.imp_of_mem (fun hδ hσ hlt => .inr ⟨?_, hlt⟩)
      (pairwise_sites_traceList ..)
    rw [p.inFunction_of_mem_sites hkeep hδ, p.inFunction_of_mem_sites hkeep hσ]
  rw [sites_headerTrace]
  refine List.pairwise_append.mpr ⟨hsection hvariable, hsection hfunction, fun δ hδ σ hσ => .inl ?_⟩
  exact ⟨p.inFunction_of_mem_sites hvariable hδ, p.inFunction_of_mem_sites hfunction hσ⟩

/-- No site marks two lines of a header, since no site comes before itself. -/
theorem nodup_sites_headerTrace : p.headerTrace.sites.Nodup := by
  refine List.Pairwise.imp ?_ p.pairwise_sites_headerTrace
  rintro σ _ hσ rfl
  exact HeaderOrder.asymm σ σ hσ hσ

/-- **Which of two lines of a header comes first** can be told from their
sites: it is the order of the header, and both have to be written at all. -/
theorem precedes_headerTrace_iff {δ σ : Site} :
    p.headerTrace.Precedes δ σ ↔
      δ ∈ p.headerTrace.sites ∧ σ ∈ p.headerTrace.sites ∧ p.HeaderOrder δ σ := by
  rw [Trace.precedes_iff_sublist]
  exact pair_sublist_iff HeaderOrder.asymm p.pairwise_sites_headerTrace

/-! ## Variables and calls of a library -/

variable {p}

/-- A node that calls is written, and its line has the call. It is a statement
of its own or the declaration of a variable. -/
theorem Calls.exists_node {σ : Site} {c : Call} (h : p.Calls σ c) :
    ∃ node, p.at? σ = some node ∧ isWritten node = true ∧
      ∀ names, Mentions (lineText names node) (call names c) := by
  obtain hσ | ⟨v, hσ, hcall⟩ := h
  · exact ⟨_, hσ, rfl, fun names => (mentions_self _).append _⟩
  · obtain ⟨type, name, initializer, constant⟩ := v
    obtain rfl : initializer = .call c := hcall
    exact ⟨_, hσ, rfl, fun names => ((mentions_self _).prepend _).append _⟩

theorem inFunction_of_declare {i : Nat} {v : Declaration} (h : p.at? [i] = some (.declare v)) :
    p.inFunction [i] = false := by
  have hfirst : p.nodes[i]? = some (.declare v) := h
  rw [inFunction, hfirst]
  rfl

namespace Accepted

variable {V : Vocabulary} {d : Dialect} {warnings : List (String × String)} {δ σ : Site}
  {node node' : Node}

/-- The outermost node around one that is written is a variable or
function. -/
theorem isDeclaration_or_isFunction (h : p.Accepted V d true warnings) {i : Nat} {ρ : Site}
    {first : Node} (hat : Node.at? p.nodes (i :: ρ) = some node) (hnode : isWritten node = true)
    (hfirst : p.nodes[i]? = some first) :
    isDeclaration first = true ∨ Node.isFunction first = true := by
  have hpart := h.1 rfl first (List.mem_of_getElem? hfirst)
  obtain hfunction | hstatement := p.isFunction_or_isStatement hat hnode hfirst
  · exact .inr hfunction
  · left
    cases first <;> first | rfl | cases hpart; done | cases hstatement

/-- **Every node of a library that is written has its line in the header**,
with one level of depth for each node around it. -/
theorem mem_headerTrace (h : p.Accepted V d true warnings) {i : Nat} {ρ : Site}
    (hat : p.at? (i :: ρ) = some node) (hnode : isWritten node = true) :
    (some (i :: ρ), ⟨ρ.length, lineText (Names.ofProgram p) node⟩) ∈ p.headerTrace := by
  obtain ⟨first, hfirst⟩ := Node.exists_first_of_at? hat
  rw [p.mem_headerTrace, ← Nat.zero_add ρ.length]
  obtain hvariable | hfunction := h.isDeclaration_or_isFunction hat hnode hfirst
  · exact .inl (mem_traceList_of_at? _ 0 hfirst hvariable hat hnode)
  · exact .inr (mem_traceList_of_at? _ 0 hfirst hfunction hat hnode)

theorem exists_mem_headerTrace (h : p.Accepted V d true warnings) (hat : p.at? σ = some node)
    (hnode : isWritten node = true) :
    ∃ depth, (some σ, ⟨depth, lineText (Names.ofProgram p) node⟩) ∈ p.headerTrace := by
  cases σ with
  | nil => cases hat
  | cons i ρ => exact ⟨ρ.length, h.mem_headerTrace hat hnode⟩

/-- **Two nodes of a library are written in the order of a header.** -/
theorem precedes_iff (h : p.Accepted V d true warnings) (hδ : p.at? δ = some node)
    (hnode : isWritten node = true) (hσ : p.at? σ = some node') (hnode' : isWritten node' = true) :
    p.headerTrace.Precedes δ σ ↔ p.HeaderOrder δ σ := by
  have hmem {σ : Site} {node : Node} (hσ : p.at? σ = some node) (hnode : isWritten node = true) :
      σ ∈ p.headerTrace.sites := by
    obtain ⟨depth, hline⟩ := h.exists_mem_headerTrace hσ hnode
    exact Trace.mem_sites.mpr ⟨_, hline⟩
  rw [p.precedes_headerTrace_iff, and_iff_right (hmem hδ hnode), and_iff_right (hmem hσ hnode')]

/-- Outside of functions, only variables are written, each of them at the top
of the unit. -/
theorem eq_declare (h : p.Accepted V d true warnings) (hat : p.at? σ = some node)
    (hnode : isWritten node = true) (hout : p.inFunction σ = false) :
    ∃ i v, σ = [i] ∧ node = .declare v := by
  match σ with
  | [] => cases hat
  | i :: ρ =>
    obtain ⟨first, hfirst⟩ := Node.exists_first_of_at? hat
    rw [inFunction, hfirst, Option.any_some] at hout
    have hvariable : isDeclaration first = true := by
      have hsection := h.isDeclaration_or_isFunction hat hnode hfirst
      rwa [hout, or_iff_left Bool.false_ne_true] at hsection
    cases first with
    | declare v =>
      cases ρ with
      | nil =>
        obtain rfl := Option.some.inj (hfirst.symm.trans hat)
        exact ⟨i, v, rfl, rfl⟩
      -- nothing is inside of a declaration
      | cons j ρ =>
        rw [at?, Node.at?_cons_cons, hfirst, Option.bind_some,
          show (Node.declare v).body = [] from rfl, Node.at?_nil] at hat
        cases hat
    | _ => cases hvariable

/-- **A variable comes before all lines that use it.** Its declaration is the
only one of the name and stands before the use in the text, and no function
comes before a variable. -/
theorem variable_first (h : p.Accepted d.vocabulary d true warnings) {i : Nat} {v : Declaration}
    (hv : p.at? [i] = some (.declare v)) (hname : d.IsName v.name) (huse : p.Uses σ v.name) :
    p.headerTrace.Precedes [i] σ := by
  obtain ⟨δ, hlt, hδ⟩ := h.declared_before hname huse
  obtain rfl : δ = [i] := h.declares_unique hδ ⟨_, hv, rfl⟩
  obtain ⟨node, hσ, hmem, -⟩ := huse
  rw [h.precedes_iff hv rfl hσ (isWritten_of_uses hmem), HeaderOrder, inFunction_of_declare hv]
  cases hfunction : p.inFunction σ with
  | true => exact .inl ⟨rfl, rfl⟩
  | false => exact .inr ⟨rfl, hlt⟩

/-- **A function comes before a call exactly if** the call is in a function,
and later in the text. -/
theorem call_after_iff (h : p.Accepted V d true warnings) {s : Signature} {body : List Node}
    (hs : p.at? δ = some (.function s body)) {c : Call} (hcall : p.Calls σ c) :
    p.headerTrace.Precedes δ σ ↔ p.inFunction σ = true ∧ δ < σ := by
  have hfunction : p.inFunction δ = true := by
    obtain ⟨i, rfl⟩ := List.length_eq_one_iff.mp (h.wellShaped.function_top δ s body hs)
    have hfirst : p.nodes[i]? = some (.function s body) := hs
    rw [inFunction, hfirst]
    rfl
  obtain ⟨node, hσ, hnode, -⟩ := hcall.exists_node
  rw [h.precedes_iff hs rfl hσ hnode, HeaderOrder, hfunction]
  cases p.inFunction σ <;> simp

/-- A variable does not start with a call of another variable that is declared
before it: only functions supply values. -/
theorem not_callee (h : p.Accepted V d true warnings) {v w : Declaration} {c : Call}
    (hv : p.at? δ = some (.declare v)) (hw : p.at? σ = some (.declare w))
    (hcall : w.initializer = .call c) (hlt : δ < σ) : c.function ≠ v.name := by
  obtain ⟨ctx, F, ⟨-, -, -, -, hinit⟩, hone, hsituation⟩ :=
    h.situation (Facts.invariant_unambiguous V) unambiguous_initial hw
  rw [hcall] at hinit
  have hsupplies := (hsituation.supplies_iff hone).mp hinit.2.1
  exact (hsupplies.2 δ v hlt hv).symm

/-- **A variable comes before a call of its name exactly if** the call is in a
function. -/
theorem callee_after_iff (h : p.Accepted V d true warnings) {i : Nat} {v : Declaration}
    (hv : p.at? [i] = some (.declare v)) {c : Call} (hcall : p.Calls σ c)
    (hname : c.function = v.name) :
    p.headerTrace.Precedes [i] σ ↔ p.inFunction σ = true := by
  obtain ⟨node, hσ, hnode, -⟩ := hcall.exists_node
  rw [h.precedes_iff hv rfl hσ hnode, HeaderOrder, inFunction_of_declare hv]
  cases hfunction : p.inFunction σ with
  | true => simp
  | false =>
    -- outside of functions the call is that of a variable, which may not be after `v`
    have hlater : ¬[i] < σ := by
      intro hlt
      obtain ⟨j, w, rfl, rfl⟩ := h.eq_declare hσ hnode hfunction
      obtain hcall | ⟨w', hw, hcall⟩ := hcall
      · cases hσ.symm.trans hcall
      · exact h.not_callee hv hw hcall hlt hname
    simp [hlater]

end Accepted

/-! ## Compiled headers -/

/-- **What stands where in a header**: the lines of the variables and
functions, of what uses variables and of calls, and which of them comes
first. -/
structure OrderedHeader (p : Program) (d : Dialect) (code : String) : Prop where
  /-- The header is what the trace says, and no site marks two of its lines. -/
  code_eq : code = render p.headerTrace.lines
  nodup : p.headerTrace.sites.Nodup
  /-- Every variable of the unit is declared by its line. -/
  variable_line : ∀ i v, p.at? [i] = some (.declare v) →
    (some [i], ⟨0, declaration (Names.ofProgram p) v⟩) ∈ p.headerTrace
  /-- Every function is opened by its line. -/
  function_line : ∀ δ s body, p.at? δ = some (.function s body) →
    (some δ, ⟨0, functionHead s⟩) ∈ p.headerTrace
  /-- What a node uses is on its line. -/
  use_line : ∀ σ x, p.Uses σ x → ∃ line, (some σ, line) ∈ p.headerTrace ∧ Mentions line.text x
  /-- So is what it calls. -/
  call_line : ∀ σ c, p.Calls σ c →
    ∃ line, (some σ, line) ∈ p.headerTrace ∧ Mentions line.text (call (Names.ofProgram p) c)
  /-- Any two lines are in the order of a header. -/
  order_iff : ∀ δ σ node node', p.at? δ = some node → isWritten node = true →
    p.at? σ = some node' → isWritten node' = true →
    (p.headerTrace.Precedes δ σ ↔ p.HeaderOrder δ σ)
  /-- A variable comes before all lines that use it. -/
  variable_first : ∀ i v σ, p.at? [i] = some (.declare v) → d.IsName v.name →
    p.Uses σ v.name → p.headerTrace.Precedes [i] σ
  /-- A function comes before a call of it exactly if the call is in a function,
  and later in the text. -/
  call_after_iff : ∀ δ s body σ c, p.at? δ = some (.function s body) → p.Calls σ c →
    c.function = s.name → (p.headerTrace.Precedes δ σ ↔ p.inFunction σ = true ∧ δ < σ)
  /-- A variable comes before a call of its name exactly if the call is in a
  function. -/
  callee_after_iff : ∀ i v σ c, p.at? [i] = some (.declare v) → p.Calls σ c →
    c.function = v.name → (p.headerTrace.Precedes [i] σ ↔ p.inFunction σ = true)

/-- **The header of an acceptable library is ordered.** The order of any two
of its lines is that of `precedes_iff`. -/
theorem Accepted.orderedHeader {d : Dialect} {warnings : List (String × String)}
    (h : p.Accepted d.vocabulary d true warnings) : p.OrderedHeader d (p.cpp .library) where
  code_eq := by rw [p.lines_headerTrace, Program.cpp]
  nodup := p.nodup_sites_headerTrace
  variable_line i v hv := h.mem_headerTrace hv rfl
  function_line δ s body hs := by
    obtain ⟨i, rfl⟩ := List.length_eq_one_iff.mp (h.wellShaped.function_top δ s body hs)
    exact h.mem_headerTrace hs rfl
  use_line σ x huse := by
    obtain ⟨node, hσ, hx, -⟩ := huse
    obtain ⟨depth, hline⟩ := h.exists_mem_headerTrace hσ (isWritten_of_uses hx)
    exact ⟨_, hline, mentions_line hx⟩
  call_line σ c hcall := by
    obtain ⟨node, hσ, hnode, hmentions⟩ := hcall.exists_node
    obtain ⟨depth, hline⟩ := h.exists_mem_headerTrace hσ hnode
    exact ⟨_, hline, hmentions _⟩
  order_iff δ σ node node' hδ hnode hσ hnode' := h.precedes_iff hδ hnode hσ hnode'
  variable_first i v σ hv hname huse := h.variable_first hv hname huse
  call_after_iff δ s body σ c hs hcall _ := h.call_after_iff hs hcall
  callee_after_iff i v σ c hv hcall hname := h.callee_after_iff hv hcall hname

end Program

/-- **Code that is the ordered header of a text.** -/
def IsOrderedHeader (d : Dialect) (source code : String) : Prop :=
  ∃ p warnings, Program.ofText d true source = .ok (p, warnings) ∧ p.OrderedHeader d code

theorem Header.IsMade.isOrderedHeader {header : Header} (h : header.IsMade) :
    IsOrderedHeader .maple header.source header.code := by
  obtain ⟨p, warnings, hread, hcode⟩ := h
  refine ⟨p, warnings, hread, ?_⟩
  rw [hcode]
  exact (Program.accepted_of_ofText hread).orderedHeader

/-- **The order of all headers that are compiled**: of a unit that is compiled
as a library, of the libraries that a unit needs, and of a library by itself
with those that it needs, from any loader. -/
theorem compiled_header_order {σ : Type} (loader : Loader (StateM σ)) :
    (∀ d mode source s s' unit, (compileUnit loader d mode source).run.run s = (.ok unit, s') →
      (mode = .library → IsOrderedHeader d source unit.code) ∧
        ∀ header ∈ unit.libraries, IsOrderedHeader .maple header.source header.code) ∧
      ∀ name s s' headers, (loader.resolveLibrary name).run.run s = (.ok headers, s') →
        ∀ header ∈ headers, IsOrderedHeader .maple header.source header.code := by
  constructor
  · intro d mode source
    have hends : Ends (fun unit : CompiledUnit =>
        (mode = .library → IsOrderedHeader d source unit.code) ∧
          ∀ header ∈ unit.libraries, IsOrderedHeader .maple header.source header.code)
        (compileUnit loader d mode source) := by
      unfold compileUnit
      refine (Ends.ofExcept (Program.ofText d mode.isLibrary source)).bind fun result hread => ?_
      obtain ⟨p, warnings⟩ := result
      refine (loader.resolve_made p).bind fun headers hheaders => .pure ⟨?_, fun header hmem => ?_⟩
      · rintro rfl
        have hread : Program.ofText d true source = .ok (p, warnings) := hread
        refine ⟨p, warnings, hread, ?_⟩
        dsimp only
        exact (Program.accepted_of_ofText hread).orderedHeader
      · exact (hheaders header hmem).isOrderedHeader
    exact fun s s' unit h => hends s unit s' h
  · intro name s s' headers h header hmem
    have hmade : Ends (fun headers => ∀ header ∈ headers, header.IsMade)
        (loader.resolveLibrary name) := loader.compile_made loader.limit [] name none nofun
    exact (hmade s headers s' h header hmem).isOrderedHeader

/-- A library whose functions call each other, and whose second variable
starts with a call of the first of them. -/
def mutualLibrary : Program :=
  ⟨[.openNamespace "m", .declare ⟨.i32, "k", .value "1", true⟩,
    .function ⟨.i32, "f", [("n", .i32)]⟩
      [.declare ⟨.i32, "r", .call ⟨"g", ["n"]⟩, true⟩, .giveBack (some "r")],
    .declare ⟨.i32, "y", .call ⟨"f", ["k"]⟩, true⟩,
    .function ⟨.i32, "g", [("n", .i32)]⟩ [.call ⟨"f", ["n"]⟩, .giveBack (some "k")]]⟩

def mutualSource : String :=
  "init @m\ndec i32 k 1\nfnc i32 f : i32 n :\ndec i32 r g : n :\nrtn r\nend\n" ++
    "dec i32 y f : k :\nfnc i32 g : i32 n :\nf : n :\nrtn k\nend"

/-- Both variables stand before the functions, and the second uses the first.
The second function calls the first one after it is opened; the other way
round, and for the variable, the call comes first. -/
theorem compiled_header_order_mutual :
    ∃ unit s', (compileUnit (Shelf.loader []) .maple .library mutualSource).run.run [] =
        (.ok unit, s') ∧ unit.code = Cpp.render mutualLibrary.headerTrace.lines ∧
      mutualLibrary.headerTrace.Precedes [1] [3] ∧
      mutualLibrary.headerTrace.Precedes [1] [4, 1] ∧
      mutualLibrary.Calls [4, 0] ⟨"f", ["n"]⟩ ∧ mutualLibrary.headerTrace.Precedes [2] [4, 0] ∧
      mutualLibrary.Calls [2, 0] ⟨"g", ["n"]⟩ ∧ ¬mutualLibrary.headerTrace.Precedes [4] [2, 0] ∧
      mutualLibrary.Calls [3] ⟨"f", ["k"]⟩ ∧ ¬mutualLibrary.headerTrace.Precedes [2] [3] := by
  have hread : Program.ofText .maple true mutualSource = .ok (mutualLibrary, []) := by
    decide +kernel
  have hrun : (compileUnit (Shelf.loader []) .maple .library mutualSource).run.run [] =
      (.ok ⟨mutualLibrary.cpp .library, [], []⟩, []) := by
    unfold compileUnit
    rw [show Program.ofText .maple Cpp.Mode.library.isLibrary mutualSource = _ from hread]
    rfl
  obtain ⟨p, warnings, hread', horder⟩ :=
    ((compiled_header_order (Shelf.loader [])).1 _ _ _ _ _ _ hrun).1 rfl
  obtain ⟨rfl, -⟩ := Prod.mk.inj (Except.ok.inj (hread.symm.trans hread'))
  have hname : Dialect.IsName .maple "k" := ⟨⟨_, _, rfl, by decide +kernel⟩, by decide +kernel⟩
  have hcall : mutualLibrary.Calls [4, 0] ⟨"f", ["n"]⟩ := .inl rfl
  have hforward : mutualLibrary.Calls [2, 0] ⟨"g", ["n"]⟩ := .inr ⟨_, rfl, rfl⟩
  have hvariable : mutualLibrary.Calls [3] ⟨"f", ["k"]⟩ := .inr ⟨_, rfl, rfl⟩
  refine ⟨_, _, hrun, horder.code_eq, ?_, ?_, hcall, ?_, hforward, ?_, hvariable, ?_⟩
  · exact horder.variable_first 1 _ [3] rfl hname ⟨_, rfl, .head _, by decide⟩
  · exact horder.variable_first 1 _ [4, 1] rfl hname ⟨_, rfl, .head _, by decide⟩
  · exact (horder.call_after_iff [2] _ _ _ _ rfl hcall rfl).mpr (by decide)
  · exact fun h => absurd ((horder.call_after_iff [4] _ _ _ _ rfl hforward rfl).mp h) (by decide)
  · exact fun h => absurd ((horder.call_after_iff [2] _ _ _ _ rfl hvariable rfl).mp h) (by decide)

/-- A function, and a variable that starts with a call of it. -/
def earlyCall : Program :=
  ⟨[.function ⟨.i32, "f", []⟩ [.giveBack (some "1")],
    .declare ⟨.i32, "x", .call ⟨"f", []⟩, true⟩]⟩

/-- **A function can be called before it is declared**: the text is compiled,
and in its header the variable that calls the function comes first. -/
theorem compileUnit_call_before_function :
    compileUnit (Shelf.pureLoader []) .maple .library
        "fnc i32 f : :\nrtn 1\nend\ndec i32 x f : :" =
        .ok ⟨Cpp.render earlyCall.headerTrace.lines, [], []⟩ ∧
      earlyCall.Declares [0] "f" ∧ earlyCall.Calls [1] ⟨"f", []⟩ ∧
      earlyCall.headerTrace.lines = Cpp.bannerLines .library ++
        [.flush "const int32_t x = f();", .blank, .flush "int32_t f() \x7b", ⟨1, "return 1;"⟩,
          .flush "\x7d", .blank] ∧
      earlyCall.headerTrace.Precedes [1] [0] ∧ ¬earlyCall.headerTrace.Precedes [0] [1] := by
  have hread : Program.ofText .maple true "fnc i32 f : :\nrtn 1\nend\ndec i32 x f : :" =
      .ok (earlyCall, []) := by decide +kernel
  have haccepted := Program.accepted_of_ofText hread
  have hcall : earlyCall.Calls [1] ⟨"f", []⟩ := .inr ⟨_, rfl, rfl⟩
  refine ⟨?_, ⟨_, rfl, rfl⟩, hcall, by decide +kernel, ?_, ?_⟩
  · rw [earlyCall.lines_headerTrace, ← Program.cpp]
    exact compileUnit_eq_ok.mpr ⟨_, _, _, hread, rfl, rfl⟩
  · exact (haccepted.precedes_iff rfl rfl rfl rfl).mpr (.inl ⟨rfl, rfl⟩)
  · exact fun h => absurd ((haccepted.call_after_iff rfl hcall).mp h) (by decide)

end MapleCompiler
