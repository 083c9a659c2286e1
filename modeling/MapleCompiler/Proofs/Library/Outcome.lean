import MapleCompiler.Proofs.Library.Order
import MapleCompiler.Proofs.Reading.Faults

/-!
# When libraries can be resolved

Resolving a program succeeds exactly if every library that its imports reach
is there, can be read and reads as a library, and none of them imports itself
through others. When it fails, the fault it reports is true of the loader: the
library named by a cyclic import lies on a cycle, one that is not found is
reached and not there, one that is unreadable is reached, there and cannot be
read (`Loader.Justified`).

Two facts carry this. Every opened library leads to the one that is compiled,
so meeting an opened library closes a cycle. And the opened libraries are
different and known to the loader, so a walk whose bound is the number of
libraries never comes to it (`Loader.Fits`).
-/

namespace MapleCompiler.Loader

open Relation

variable {loader : Loader Id}

/-! ## The bound of the walk -/

/-- **The walk has room**: the opened libraries are different ones among
`names`, and the depth left suffices for the others. -/
structure Fits (names : List String) (depth : Nat) (opened : List String) : Prop where
  nodup : opened.Nodup
  subset : opened ⊆ names
  room : names.length ≤ depth + opened.length

theorem fits_nil {names : List String} {depth : Nat} (h : names.length ≤ depth) :
    Fits names depth [] :=
  ⟨List.nodup_nil, List.nil_subset _, h⟩

/-- Opening a library takes one of the depth, and there is one to take: with
this one the opened libraries are still different names of the list, which the
depth left has room for. -/
theorem Fits.opens {names : List String} {depth : Nat} {opened : List String} {name : String}
    (h : Fits names depth opened) (ho : name ∉ opened) (hn : name ∈ names) :
    0 < depth ∧ ∀ below, depth = below + 1 → Fits names below (name :: opened) := by
  have hnodup : (name :: opened).Nodup := List.nodup_cons.mpr ⟨ho, h.nodup⟩
  have hsubset : name :: opened ⊆ names := List.cons_subset.mpr ⟨hn, h.subset⟩
  have hlength : (name :: opened).length ≤ names.length :=
    hnodup.length_le_of_subset hsubset
  have hroom := h.room
  rw [List.length_cons] at hlength
  refine ⟨by omega, fun below hb => ⟨hnodup, hsubset, ?_⟩⟩
  rw [List.length_cons]
  omega

/-- More depth than the walk needs changes nothing. By induction on the depth;
where it is enough, the fault of imports that are too deep is never met. -/
theorem compileOne_add {names : List String}
    (hnames : ∀ name, loader.has name = true → name ∈ names) (more depth : Nat) :
    ∀ (opened : List String) (name : String) (site? : Option Span) (done : List Header),
      Fits names depth opened →
        loader.compileOne (depth + more) opened name site? done =
          loader.compileOne depth opened name site? done := by
  induction depth with
  | zero =>
    intro opened name site? done hfits
    rw [compileOne_eq, compileOne_eq]
    split
    · rfl
    split
    · rfl
    next ho =>
    split
    · rfl
    next hc =>
    -- a library that could be opened would not fit
    have hn : name ∈ names := hnames name (by simpa using hc)
    exact absurd (hfits.opens ho hn).1 (Nat.lt_irrefl 0)
  | succ depth ih =>
    intro opened name site? done hfits
    rw [compileOne_eq, compileOne_eq]
    split
    · rfl
    split
    · rfl
    next ho =>
    split
    · rfl
    next hc =>
    have hinner : Fits names depth (name :: opened) :=
      (hfits.opens ho (hnames name (by simpa using hc))).2 depth rfl
    have hall := compileAll_congr fun name' site? done =>
      ih (name :: opened) name' site? done hinner
    rw [show depth + 1 + more = (depth + more) + 1 by omega]
    simp only [hall]

/-- The bound of a loader does not change what a step does at a given depth:
it is only the depth that a walk begins with. -/
theorem compileOne_limit (loader : Loader Id) (limit depth : Nat) :
    ∀ (opened : List String) (name : String) (site? : Option Span) (done : List Header),
      ({ loader with limit := limit } : Loader Id).compileOne depth opened name site? done =
        loader.compileOne depth opened name site? done := by
  induction depth with
  | zero =>
    intro opened name site? done
    rw [compileOne_eq, compileOne_eq]
    rfl
  | succ depth ih =>
    intro opened name site? done
    rw [compileOne_eq, compileOne_eq]
    simp only [compileAll_congr (ih (name :: opened))]
    rfl

/-- A resolution with a larger bound is the same, if the loader is finite. -/
theorem resolve_add (hf : loader.IsFinite) (program : Program) (more : Nat) :
    ({ loader with limit := loader.limit + more } : Loader Id).resolve program =
      loader.resolve program := by
  obtain ⟨names, hnames, hlength⟩ := hf
  rw [resolve_eq, resolve_eq]
  refine compileAll_congr (fun name site? done => ?_) _ _
  rw [compileOne_limit]
  exact compileOne_add hnames more loader.limit [] name site? done (fits_nil hlength)

/-! ## Why a walk fails -/

/-- **What a fault says about the loader**: the library it blames is reached,
and it is as the fault says. A fault of a text says that some reached library
does not read as one. -/
def Justified (loader : Loader Id) (roots : List String) (e : CompileError) : Prop :=
  match e.fault with
  | .cyclicImport name => loader.Reaches roots name ∧ TransGen loader.Imports name name
  | .libraryNotFound name => loader.Reaches roots name ∧ loader.has name = false
  | .libraryUnreadable place message =>
    ∃ name, loader.Reaches roots name ∧ loader.has name = true ∧
      loader.text name = .error message ∧ place = loader.describe name
  | .importsTooDeep _ => False
  | _ => ∃ name source e', loader.Reaches roots name ∧ loader.text name = .ok source ∧
      Program.ofText .maple true source = .error e'

/-- Saying in which library a fault was found does not change what it says. -/
theorem Justified.inLibrary {roots : List String} {e : CompileError}
    (h : loader.Justified roots e) (name : String) :
    loader.Justified roots (e.inLibrary name) := h

/-- A fault of a text is justified by a text that has it. The fault is none of
an import, so only the last case is left. -/
theorem justified_of_isOwn {roots : List String} {name source : String} {e : CompileError}
    (hreach : loader.Reaches roots name) (hl : loader.text name = .ok source)
    (hu : Program.ofText .maple true source = .error e) : loader.Justified roots e := by
  have hown : e.fault.isImport = false := Program.ofText_isOwn _ _ _ e hu
  unfold Justified
  split
  · next heq => rw [heq] at hown; cases hown
  · next heq => rw [heq] at hown; cases hown
  · next heq => rw [heq] at hown; cases hown
  · next heq => rw [heq] at hown; cases hown
  · exact ⟨name, source, e, hreach, hl, hu⟩

/-- Every library of `opened` waits for `name`: it imports it, directly or
through others. -/
def Waiting (loader : Loader Id) (opened : List String) (name : String) : Prop :=
  ∀ o ∈ opened, TransGen loader.Imports o name

theorem Waiting.cons {opened : List String} {name imported : String}
    (h : loader.Waiting opened name) (hi : loader.Imports name imported) :
    loader.Waiting (name :: opened) imported := by
  intro o ho
  rcases List.mem_cons.mp ho with rfl | ho
  · exact .single hi
  · exact (h o ho).tail hi

/-- **Steps fail with reason**, by induction on the depth. There is enough of
it, so no step fails because imports are too deep. -/
theorem justified_of_compileOne_eq_error {names roots : List String}
    (hnames : ∀ name, loader.has name = true → name ∈ names) (depth : Nat) :
    ∀ (opened : List String) (name : String) (site? : Option Span) (done : List Header)
      (e : CompileError), Fits names depth opened → loader.Waiting opened name →
      loader.Reaches roots name → loader.compileOne depth opened name site? done = .error e →
        loader.Justified roots e := by
  induction depth using Nat.strongRecOn with
  | _ depth ih =>
    intro opened name site? done e hfits hwait hreach h
    cases fails_of_compileOne_eq_error h with
    | cyclic ho => exact ⟨hreach, hwait name ho⟩
    | notFound hc => exact ⟨hreach, hc⟩
    | unreadable message hc hl => exact ⟨name, hreach, hc, hl, rfl⟩
    | atBound ho hc hd =>
      exact absurd (hfits.opens ho (hnames name hc)).1 (hd ▸ Nat.lt_irrefl 0)
    | malformed source e _ hl hu => exact (justified_of_isOwn hreach hl hu).inLibrary name
    | inside below source unit e ho hd hr ha =>
      have hinner : Fits names below (name :: opened) :=
        (hfits.opens ho (hnames name hr.1)).2 below hd
      -- the failing import is one of those that the text of `name` lists
      obtain ⟨site, hsite, done', he⟩ := exists_of_compileAll_eq_error ha
      have hi : loader.Imports name site.1 := ⟨source, unit, hr, List.mem_map_of_mem hsite⟩
      exact (ih below (by omega) (name :: opened) site.1 (some site.2) done' e hinner
        (hwait.cons hi) (hreach.tail hi) he).inLibrary name

/-- **A resolution fails with reason**, if the loader is finite. The step that
fails begins with nothing opened. -/
theorem justified_of_resolve_eq_error (hf : loader.IsFinite) {program : Program}
    {e : CompileError} (h : loader.resolve program = .error e) :
    loader.Justified program.imports e := by
  obtain ⟨names, hnames, hlength⟩ := hf
  obtain ⟨site, hsite, done, he⟩ := exists_of_compileAll_eq_error h
  exact justified_of_compileOne_eq_error hnames loader.limit [] site.1 (some site.2) done e
    (fits_nil hlength) (fun o ho => absurd ho List.not_mem_nil)
    ⟨site.1, List.mem_map_of_mem hsite, .refl⟩ he

/-! ## The outcome of a resolution -/

/-- In an ordered list, what a library leads to stands before it. By induction
on the way to the other library. -/
theorem Listed.before_of_transGen {done before after : List Header} {x : Header} {name : String}
    (hd : loader.Listed done) (heq : done = before ++ x :: after)
    (h : TransGen loader.Imports x.name name) : name ∈ before.map Header.name := by
  induction h with
  | single hi => exact hd.ordered before x after heq _ hi
  | tail _ hi ih =>
    obtain ⟨y, hy, rfl⟩ := List.mem_map.mp ih
    obtain ⟨front, back, rfl⟩ := List.append_of_mem hy
    rw [List.append_assoc, List.cons_append] at heq
    rw [List.map_append]
    exact List.mem_append_left _ (hd.ordered front y _ heq _ hi)

/-- No library of an ordered list leads to itself, since it would stand before
itself. -/
theorem Listed.acyclic {done : List Header} (hd : loader.Listed done) {name : String}
    (hn : name ∈ done.map Header.name) : ¬ TransGen loader.Imports name name := by
  intro hcycle
  obtain ⟨x, hx, rfl⟩ := List.mem_map.mp hn
  obtain ⟨before, after, rfl⟩ := List.append_of_mem hx
  have hbefore := hd.before_of_transGen rfl hcycle
  have hnodup := hd.nodup
  rw [List.map_append, List.map_cons] at hnodup
  exact (List.nodup_append.mp hnodup).2.2 _ hbefore _ List.mem_cons_self rfl

/-- **When libraries can be resolved.** The bound of the walk never matters: a
loader with a larger one gives the same result. There is a result exactly if
every reached library reads as one and none imports itself through others. A
fault of an import is true of the library that it names, and no resolution
ends because the walk came to its bound. -/
theorem resolve_outcome (loader : Loader Id) (hf : loader.IsFinite) (program : Program) :
    (∀ more, ({ loader with limit := loader.limit + more } : Loader Id).resolve program =
      loader.resolve program) ∧
    ((∃ headers, loader.resolve program = .ok headers) ↔
      (∀ name, loader.Reaches program.imports name → ∃ source unit, loader.Reads name source unit) ∧
      (∀ name, loader.Reaches program.imports name → ¬ TransGen loader.Imports name name)) ∧
    (∀ e, loader.resolve program = .error e →
      (∀ name, e.fault = .cyclicImport name →
        loader.Reaches program.imports name ∧ TransGen loader.Imports name name) ∧
      (∀ name, e.fault = .libraryNotFound name →
        loader.Reaches program.imports name ∧ loader.has name = false) ∧
      (∀ place message, e.fault = .libraryUnreadable place message →
        ∃ name, loader.Reaches program.imports name ∧ loader.has name = true ∧
          loader.text name = .error message ∧ place = loader.describe name) ∧
      ∀ name, e.fault ≠ .importsTooDeep name) := by
  refine ⟨fun more => ?_, ⟨fun ⟨headers, h⟩ => ?_, fun ⟨hreads, hacyclic⟩ => ?_⟩, fun e h => ?_⟩
  · exact resolve_add hf program more
  · have hext := resolve_extends h
    have hlisted : ∀ name, loader.Reaches program.imports name → name ∈ headers.map Header.name :=
      fun name hn => hext.listed.mem_of_reaches hext.covers hn
    refine ⟨fun name hn => ?_, fun name hn => hext.listed.acyclic (hlisted name hn)⟩
    obtain ⟨x, hx, rfl⟩ := List.mem_map.mp (hlisted name hn)
    obtain ⟨unit, hr, -⟩ := hext.listed.compiled x hx
    exact ⟨x.source, unit, hr⟩
  · cases h : (loader.resolve program).run with
    | ok headers => exact ⟨headers, h⟩
    | error e =>
      exfalso
      have hj := justified_of_resolve_eq_error hf h
      unfold Justified at hj
      split at hj
      · next name _ => exact hacyclic name hj.1 hj.2
      · next name _ =>
        obtain ⟨source, unit, hc, -⟩ := hreads name hj.1
        rw [hj.2] at hc
        cases hc
      · obtain ⟨name, hreach, -, hl, -⟩ := hj
        obtain ⟨source, unit, -, hl', -⟩ := hreads name hreach
        rw [hl] at hl'
        cases hl'
      · exact hj
      · obtain ⟨name, source, e', hreach, hl, hu⟩ := hj
        obtain ⟨source', unit, -, hl', hu'⟩ := hreads name hreach
        obtain rfl : source = source' := Except.ok.inj (hl.symm.trans hl')
        rw [hu] at hu'
        cases hu'
  · have hj := justified_of_resolve_eq_error hf h
    refine ⟨fun name he => ?_, fun name he => ?_, fun place message he => ?_, fun name he => ?_⟩
    · simpa only [Justified, he] using hj
    · simpa only [Justified, he] using hj
    · simpa only [Justified, he] using hj
    · simp only [Justified, he] at hj

/-- A shelf where two libraries import each other. -/
def cyclicShelf : Shelf := [("a", .text "lib @b"), ("b", .text "dec i32 x 1 lib @a")]

/-- Importing one of two libraries that import each other fails with a cyclic
import, and the library it names lies on the cycle. -/
theorem resolve_outcome_cyclic :
    cyclicShelf.pureLoader.IsFinite ∧
      ∃ e, cyclicShelf.pureLoader.resolve ⟨[.useLibrary "a" ⟨4, 2, 1, 5⟩]⟩ = .error e ∧
        e.fault = .cyclicImport "a" ∧ TransGen cyclicShelf.pureLoader.Imports "a" "a" := by
  have hf := cyclicShelf.isFinite_pureLoader
  have hfault : (match (cyclicShelf.pureLoader.resolve ⟨[.useLibrary "a" ⟨4, 2, 1, 5⟩]⟩).run with
      | .ok _ => none
      | .error e => some e.fault) = some (.cyclicImport "a") := by decide +kernel
  cases h : (cyclicShelf.pureLoader.resolve ⟨[.useLibrary "a" ⟨4, 2, 1, 5⟩]⟩).run with
  | ok headers => simp [h] at hfault
  | error e =>
    simp only [h, Option.some.injEq] at hfault
    exact ⟨hf, e, h, hfault, (((resolve_outcome _ hf _).2.2 e h).1 "a" hfault).2⟩

end MapleCompiler.Loader
