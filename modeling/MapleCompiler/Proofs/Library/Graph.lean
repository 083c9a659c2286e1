import MapleCompiler.Library.Resolution
import Mathlib.Data.List.Nodup
import Mathlib.Logic.Relation

/-!
# The import graph of a loader

A loader without effects answers every question about a name in one way, so
the libraries it has form a graph: `Loader.Imports` leads from a library to
those that its text names. What a program needs is what its own imports reach
in that graph (`Loader.Reaches`).

The compiler walks the graph and lists what it has compiled. This module says
once what a step of that walk can do: `Loader.compileOne_eq` reads a compilation
without its monad, and `Loader.compileOne_eq_ok_iff` says exactly when a step
succeeds and what it then adds to the list. Everything about whole walks is
derived from these.

The walk is given a bound on its depth. A loader is *finite*
(`Loader.IsFinite`) if the names it knows are no more than its bound; a shelf
is such a loader.
-/

namespace MapleCompiler

namespace Loader

/-- Whether there is a library of a name. -/
def has (loader : Loader Id) (name : String) : Bool := loader.contains name

/-- The text of a library, or why it cannot be read. -/
def text (loader : Loader Id) (name : String) : Except String String := loader.load name

/-- **What a library is**: the loader has its text, and the text reads as a
library. -/
def Reads (loader : Loader Id) (name source : String) (unit : Program × List Warning) : Prop :=
  loader.has name = true ∧ loader.text name = .ok source ∧
    Program.ofText .maple true source = .ok unit

/-- **The import graph**: the text of the library `a` imports `b`. -/
def Imports (loader : Loader Id) (a b : String) : Prop :=
  ∃ source unit, loader.Reads a source unit ∧ b ∈ unit.1.imports

/-- The libraries that some names lead to through imports. -/
def Reaches (loader : Loader Id) (roots : List String) (name : String) : Prop :=
  ∃ root ∈ roots, Relation.ReflTransGen loader.Imports root name

/-- **A finite loader**: the names that it has libraries for fit in its
bound. -/
def IsFinite (loader : Loader Id) : Prop :=
  ∃ names : List String, (∀ name, loader.has name = true → name ∈ names) ∧
    names.length ≤ loader.limit

/-- A name has one text and one reading of it, since a loader without a state
gives the same answer each time. -/
theorem Reads.unique {loader : Loader Id} {name source source' : String}
    {unit unit' : Program × List Warning} (h : loader.Reads name source unit)
    (h' : loader.Reads name source' unit') : source = source' ∧ unit = unit' := by
  obtain ⟨-, hl, hu⟩ := h
  obtain ⟨-, hl', hu'⟩ := h'
  have hs : source = source' := Except.ok.inj (hl.symm.trans hl')
  subst hs
  exact ⟨rfl, Except.ok.inj (hu.symm.trans hu')⟩

theorem Reaches.tail {loader : Loader Id} {roots : List String} {a b : String}
    (h : loader.Reaches roots a) (hab : loader.Imports a b) : loader.Reaches roots b := by
  obtain ⟨root, hroot, hpath⟩ := h
  exact ⟨root, hroot, hpath.tail hab⟩

/-! ## A compilation step by step -/

/-- Compiles one library with all that it imports. -/
def compileOne (loader : Loader Id) (depth : Nat) (opened : List String) (name : String)
    (site? : Option Span) (done : List Header) : Except CompileError (List Header) :=
  (loader.compile depth opened name site? done).run

/-- Compiles the libraries of a list of imports one after the other. -/
def compileAll (loader : Loader Id) (depth : Nat) (opened : List String)
    (sites : List (String × Span)) (done : List Header) : Except CompileError (List Header) :=
  (sites.foldlM
    (fun done (library, span) => loader.compile depth opened library (some span) done) done :
      ExceptT CompileError Id (List Header)).run

theorem compileAll_cons (loader : Loader Id) (depth : Nat) (opened : List String)
    (site : String × Span) (sites : List (String × Span)) (done : List Header) :
    loader.compileAll depth opened (site :: sites) done =
      match loader.compileOne depth opened site.1 (some site.2) done with
      | .ok done => loader.compileAll depth opened sites done
      | .error e => .error e := by
  rw [compileAll, List.foldlM_cons]
  show ExceptT.bind (m := Id) (loader.compileOne depth opened site.1 (some site.2) done) _ = _
  generalize loader.compileOne depth opened site.1 (some site.2) done = first
  cases first <;> rfl

/-- Runs whose steps agree agree, even if they are those of different loaders
or have different depths. By induction on the imports. -/
theorem compileAll_congr {loader loader' : Loader Id} {depth depth' : Nat} {opened : List String}
    (h : ∀ name site? done, loader.compileOne depth opened name site? done =
      loader'.compileOne depth' opened name site? done)
    (sites : List (String × Span)) (done : List Header) :
    loader.compileAll depth opened sites done = loader'.compileAll depth' opened sites done := by
  induction sites generalizing done with
  | nil => rfl
  | cons site sites ih =>
    rw [compileAll_cons, compileAll_cons, h]
    split
    · exact ih _
    · rfl

/-- A run that fails has a step that does, with the same error. Of the list
that the step begins with nothing is said. -/
theorem exists_of_compileAll_eq_error {loader : Loader Id} {depth : Nat} {opened : List String}
    {sites : List (String × Span)} {done : List Header} {e : CompileError}
    (h : loader.compileAll depth opened sites done = .error e) :
    ∃ site ∈ sites, ∃ done',
      loader.compileOne depth opened site.1 (some site.2) done' = .error e := by
  induction sites generalizing done with
  | nil => cases h
  | cons site sites ih =>
    rw [compileAll_cons] at h
    split at h
    · obtain ⟨site', hmem, hfails⟩ := ih h
      exact ⟨site', List.mem_cons_of_mem _ hmem, hfails⟩
    · next e' he => exact ⟨site, List.mem_cons_self, done, Except.error.inj h ▸ he⟩

/-- Resolving a program is compiling its imports with nothing opened. -/
theorem resolve_eq (loader : Loader Id) (program : Program) :
    loader.resolve program = loader.compileAll loader.limit [] program.importSites [] := rfl

/-- The part of a compilation that is reported as being inside the library:
the libraries that it imports, and then its own header. -/
theorem compile_inside (loader : Loader Id) (depth : Nat) (opened : List String)
    (name source : String) (done : List Header)
    (unit : Except CompileError (Program × List Warning)) :
    (do
      let (program, warnings) ← (liftM unit : ExceptT CompileError Id (Program × List Warning))
      let done ← program.importSites.foldlM
        (fun done (library, span) =>
          compile loader depth (name :: opened) library (some span) done) done
      return done ++ [⟨name, source, program.cpp .library, warnings⟩] :
        ExceptT CompileError Id (List Header)).adapt (·.inLibrary name) =
      match unit with
      | .error e => .error (e.inLibrary name)
      | .ok (program, warnings) =>
        match loader.compileAll depth (name :: opened) program.importSites done with
        | .error e => .error (e.inLibrary name)
        | .ok done => .ok (done ++ [⟨name, source, program.cpp .library, warnings⟩]) := by
  cases unit with
  | error e => rfl
  | ok unit =>
    show ExceptT.adapt (m := Id) _
      (ExceptT.bind (loader.compileAll depth (name :: opened) unit.1.importSites done) _) =
        match loader.compileAll depth (name :: opened) unit.1.importSites done with
        | .error e => Except.error (e.inLibrary name)
        | .ok done => Except.ok (done ++ [⟨name, source, unit.1.cpp .library, unit.2⟩])
    generalize loader.compileAll depth (name :: opened) unit.1.importSites done = imported
    cases imported <;> rfl

/-- The names of compiled libraries, as the walk asks for them: by comparing
texts one by one. -/
theorem any_name_eq (done : List Header) (name : String) :
    done.any (·.name == name) = decide (name ∈ done.map Header.name) := by
  rw [Bool.eq_iff_iff, List.any_eq_true, decide_eq_true_eq, List.mem_map]
  exact exists_congr fun h => and_congr_right fun _ => beq_iff_eq

/-- **A compilation without its monad**: the questions in the order they are
asked, each with what its answer leads to. All that is proved about a step
begins here. -/
theorem compileOne_eq (loader : Loader Id) (depth : Nat) (opened : List String) (name : String)
    (site? : Option Span) (done : List Header) :
    loader.compileOne depth opened name site? done =
      if name ∈ done.map Header.name then .ok done
      else if name ∈ opened then .error (importError (.cyclicImport name) site?)
      else if loader.has name = false then .error (importError (.libraryNotFound name) site?)
      else match loader.text name with
      | .error message =>
        .error (importError (.libraryUnreadable (loader.describe name) message) site?)
      | .ok source =>
        match depth with
        | 0 => .error (importError (.importsTooDeep name) site?)
        | depth + 1 =>
          match Program.ofText .maple true source with
          | .error e => .error (e.inLibrary name)
          | .ok (program, warnings) =>
            match loader.compileAll depth (name :: opened) program.importSites done with
            | .error e => .error (e.inLibrary name)
            | .ok done => .ok (done ++ [⟨name, source, program.cpp .library, warnings⟩]) := by
  rw [compileOne, compile, any_name_eq]
  by_cases hd : name ∈ done.map Header.name
  · rw [if_pos (decide_eq_true hd), if_pos hd]
    rfl
  rw [if_neg (by rwa [decide_eq_true_eq]), if_neg hd]
  by_cases ho : name ∈ opened
  · rw [if_pos (List.contains_iff_mem.mpr ho), if_pos ho]
    rfl
  rw [if_neg (by rwa [List.contains_iff_mem]), if_neg ho]
  unfold has text
  cases loader.contains name with
  | false => rfl
  | true =>
    cases loader.load name with
    | error message => rfl
    | ok source =>
      cases depth with
      | zero => rfl
      | succ depth => exact compile_inside loader depth opened name source done _

/-- **What a successful step adds.** A library that is on the list stays where
it is. Any other is not among those opened; its text reads as a library, its
imports are compiled first, with it opened, and its header comes last. -/
theorem compileOne_eq_ok_iff (loader : Loader Id) (depth : Nat) (opened : List String)
    (name : String) (site? : Option Span) (done done' : List Header) :
    loader.compileOne depth opened name site? done = .ok done' ↔
      (name ∈ done.map Header.name ∧ done' = done) ∨
      (name ∉ done.map Header.name ∧ name ∉ opened ∧
        ∃ below source unit before, depth = below + 1 ∧ loader.Reads name source unit ∧
          loader.compileAll below (name :: opened) unit.1.importSites done = .ok before ∧
          done' = before ++ [⟨name, source, unit.1.cpp .library, unit.2⟩]) := by
  rw [compileOne_eq]
  by_cases hd : name ∈ done.map Header.name
  · simp only [hd, if_true, not_true_eq_false, false_and, or_false, true_and, Except.ok.injEq]
    exact eq_comm
  simp only [hd, if_false, false_and, false_or, not_false_eq_true, true_and]
  by_cases ho : name ∈ opened
  · simp only [ho, if_true, not_true_eq_false, false_and, reduceCtorEq]
  simp only [ho, if_false, not_false_eq_true, true_and]
  unfold Reads
  cases hc : loader.has name with
  | false => simp
  | true =>
    cases hl : loader.text name with
    | error message => simp
    | ok source =>
      cases depth with
      | zero => simp
      | succ below =>
        cases hu : Program.ofText .maple true source with
        | error e => simp [hu]
        | ok unit =>
          obtain ⟨program, warnings⟩ := unit
          cases ha : loader.compileAll below (name :: opened) program.importSites done with
          | error e => simp [hu, ha]
          | ok before => simp [hu, ha, eq_comm]

/-- **Why a step fails**, for a library that is not on the list. -/
inductive Fails (loader : Loader Id) (depth : Nat) (opened : List String) (name : String)
    (site? : Option Span) (done : List Header) : CompileError → Prop
  /-- It is opened already. -/
  | cyclic (ho : name ∈ opened) :
      loader.Fails depth opened name site? done (importError (.cyclicImport name) site?)
  /-- There is no such library. -/
  | notFound (hc : loader.has name = false) :
      loader.Fails depth opened name site? done (importError (.libraryNotFound name) site?)
  /-- Its text cannot be read. -/
  | unreadable (message : String) (hc : loader.has name = true)
      (hl : loader.text name = .error message) :
      loader.Fails depth opened name site? done
        (importError (.libraryUnreadable (loader.describe name) message) site?)
  /-- The walk is at its bound. -/
  | atBound (ho : name ∉ opened) (hc : loader.has name = true) (hd : depth = 0) :
      loader.Fails depth opened name site? done (importError (.importsTooDeep name) site?)
  /-- Its text is no library. -/
  | malformed (source : String) (e : CompileError) (hc : loader.has name = true)
      (hl : loader.text name = .ok source) (hu : Program.ofText .maple true source = .error e) :
      loader.Fails depth opened name site? done (e.inLibrary name)
  /-- One of its imports fails. -/
  | inside (below : Nat) (source : String) (unit : Program × List Warning) (e : CompileError)
      (ho : name ∉ opened) (hd : depth = below + 1) (hr : loader.Reads name source unit)
      (ha : loader.compileAll below (name :: opened) unit.1.importSites done = .error e) :
      loader.Fails depth opened name site? done (e.inLibrary name)

/-- A step that fails does so for one of these reasons, each with the answers
that lead to it. -/
theorem fails_of_compileOne_eq_error {loader : Loader Id} {depth : Nat} {opened : List String}
    {name : String} {site? : Option Span} {done : List Header} {e : CompileError}
    (h : loader.compileOne depth opened name site? done = .error e) :
    loader.Fails depth opened name site? done e := by
  rw [compileOne_eq] at h
  split at h
  · cases h
  split at h
  case isTrue ho => exact Except.error.inj h ▸ .cyclic ho
  case isFalse ho =>
    cases hc : loader.has name with
    | false =>
      rw [hc] at h
      exact Except.error.inj h ▸ .notFound hc
    | true =>
      cases hl : loader.text name with
      | error message =>
        rw [hc, hl] at h
        exact Except.error.inj h ▸ .unreadable message hc hl
      | ok source =>
        rw [hc, hl] at h
        cases depth with
        | zero => exact Except.error.inj h ▸ .atBound ho hc rfl
        | succ below =>
          cases hu : Program.ofText .maple true source with
          | error e =>
            simp only [hu] at h
            exact Except.error.inj h ▸ .malformed source e hc hl hu
          | ok unit =>
            cases ha : loader.compileAll below (name :: opened) unit.1.importSites done with
            | error e =>
              simp only [hu, ha] at h
              exact Except.error.inj h ▸ .inside below source unit e ho rfl ⟨hc, hl, hu⟩ ha
            | ok before => simp [hu, ha] at h

end Loader

/-- **A shelf is a finite loader**: its names are those of its entries, and
its bound is their number. -/
theorem Shelf.isFinite_pureLoader (shelf : Shelf) : shelf.pureLoader.IsFinite := by
  refine ⟨shelf.map Prod.fst, fun name h => ?_, Nat.le_of_eq (List.length_map _)⟩
  by_contra hn
  have hnone : shelf.lookup name = none := by
    rw [List.lookup_eq_none_iff]
    intro p hp
    rw [bne_iff_ne]
    rintro rfl
    exact hn (List.mem_map_of_mem hp)
  rw [show shelf.pureLoader.has name = (shelf.lookup name).isSome from rfl, hnone] at h
  cases h

end MapleCompiler
