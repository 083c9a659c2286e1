import MapleCompiler.Command.Run
import MapleCompiler.Proofs.Emission.Nesting
import MapleCompiler.Proofs.Host.Paths
import MapleCompiler.Proofs.Library.Memory
import MapleCompiler.Proofs.Library.Order

/-!
# Sources do not choose directories

A unit says which libraries it wants, and the names of their files are made from what
it says. A source is not trusted with that: a name such as `../x` would lead out of
the library directory, and out of the output directory when the header is written.

There is no such name. The scanner takes for the name of a library only a word, that
is letters, digits and low lines after an `@` sign, so words are all that a text
imports (`Program.isWord_of_import`), all that a loader is asked about, and all that
headers are called. The file of a word is an entry of its directory, whichever
directory that is (`isEntry_libraryPath`, `isEntry_headerFile`).

What a loader is asked is seen from two sides. `Loader.overheard` keeps a list of it.
And a loader that answers differently where it is not asked gives the same unit; this
covers what it calls its files, too, which leaves no trace on a list.

Main statement: `compileUnit_confined`.
-/

namespace MapleCompiler

/-- **A word**: letters, digits and low lines, at least one. -/
def IsWord (name : String) : Prop := name.toList ≠ [] ∧ ∀ c ∈ name.toList, isWordChar c = true

namespace IsWord

variable {name : String}

theorem slash_notMem (h : IsWord name) : '/' ∉ name.toList := fun hmem => by
  have hslash := h.2 '/' hmem
  revert hslash
  decide

theorem isPlain_libraryFile (h : IsWord name) : Path.IsPlain (libraryFile name) := by
  refine .append ?_ (by decide) (by decide)
  rw [String.toList_append, List.mem_append, not_or]
  exact ⟨h.slash_notMem, by decide⟩

theorem isPlain_headerFile (h : IsWord name) : Path.IsPlain (headerFile name) :=
  .append h.slash_notMem (by decide) (by decide)

/-- The file of a library is right in the library directory. A word has no
slash, so its name cannot lead out of there. -/
theorem isEntry_libraryPath (h : IsWord name) (directory : String) :
    Path.IsEntry directory (libraryFile name) (libraryPath directory name) :=
  Path.isEntry_join h.isPlain_libraryFile directory

/-- The header of a library is right in the output directory, for the same
reason as its source is in the library directory. -/
theorem isEntry_headerFile (h : IsWord name) (directory : String) :
    Path.IsEntry directory (headerFile name) (Path.join directory (headerFile name)) :=
  Path.isEntry_join h.isPlain_headerFile directory

end IsWord

/-! ## What is imported -/

/-- **A text imports words**, in both dialects. A program that is read is
acceptable, and what it imports can be named in its dialect. -/
theorem Program.isWord_of_import {d : Dialect} {library : Bool} {source : String}
    {unit : Program × List Warning} (h : ofText d library source = .ok unit) {name : String}
    (hname : name ∈ unit.1.imports) : IsWord name :=
  Cpp.word_library ((accepted_of_ofText h).library_of_import hname)

namespace Loader

/-- Words lead to words only: unless there is no step on the way to a library,
the last one is that a text imports it. -/
theorem Reaches.isWord {loader : Loader Id} {roots : List String} {name : String}
    (h : loader.Reaches roots name) (hroots : ∀ root ∈ roots, IsWord root) : IsWord name := by
  obtain ⟨root, hroot, hpath⟩ := h
  cases hpath with
  | refl => exact hroots _ hroot
  | tail _ himports =>
    obtain ⟨_, _, ⟨-, -, hread⟩, hname⟩ := himports
    exact Program.isWord_of_import hread hname

/-- **A loader that keeps a list of the names it is asked about.** -/
def overheard (loader : Loader Id) : Loader (StateM (List String)) where
  contains name := do
    modify (name :: ·)
    return loader.contains name
  load name := do
    modify (name :: ·)
    return loader.load name
  describe := loader.describe
  limit := loader.limit

/-- Two loaders that do not differ about words. -/
structure AgreeOnWords (loader other : Loader Id) : Prop where
  contains : ∀ name, IsWord name → loader.has name = other.has name
  load : ∀ name, IsWord name → loader.text name = other.text name
  describe : ∀ name, IsWord name → loader.describe name = other.describe name
  limit : loader.limit = other.limit

/-- A list of words, as long as a loader is asked about words. The list is
what the loader was asked about, and a walk that begins with words asks about
nothing else. -/
theorem AgreeOnWords.serves_overheard {loader other : Loader Id}
    (h : loader.AgreeOnWords other) :
    loader.overheard.Serves IsWord (fun _ asked => ∀ name ∈ asked, IsWord name) other where
  imports _ _ _ _ hread _ hname := Program.isWord_of_import hread hname
  limit := h.limit
  describe name hname := h.describe name hname
  contains _ name hname asked hasked :=
    ⟨name :: asked, by rw [← h.contains name hname]; rfl, List.forall_mem_cons.mpr ⟨hname, hasked⟩⟩
  load _ name hname _ asked hasked :=
    ⟨name :: asked, by rw [← h.load name hname]; rfl, List.forall_mem_cons.mpr ⟨hname, hasked⟩⟩
  mono _ _ _ _ hasked := hasked

theorem AgreeOnWords.refl (loader : Loader Id) : loader.AgreeOnWords loader :=
  ⟨fun _ _ => rfl, fun _ _ => rfl, fun _ _ => rfl, rfl⟩

end Loader

/-- The libraries of a unit are called by words, since its imports lead to all
of them. -/
theorem isWord_of_mem_libraries {loader : Loader Id} {d : Dialect} {mode : Cpp.Mode}
    {source : String} {unit : CompiledUnit} (h : compileUnit loader d mode source = .ok unit)
    {header : Header} (hheader : header ∈ unit.libraries) : IsWord header.name := by
  obtain ⟨p, warnings, headers, hread, hresolve, rfl⟩ := compileUnit_eq_ok.mp h
  obtain hnil | ⟨-, hreaches⟩ := (Loader.resolve_extends hresolve).reached header.name
    (List.mem_map_of_mem hheader)
  · cases hnil
  · exact hreaches.isWord fun _ => Program.isWord_of_import hread

/-- The library that an error is found in is called by a word: the imports of
the unit lead there. -/
theorem isWord_of_library? {loader : Loader Id} {d : Dialect} {mode : Cpp.Mode}
    {source : String} {e : CompileError} (h : compileUnit loader d mode source = .error e)
    {library : String} (hlibrary : e.library? = some library) : IsWord library := by
  obtain ⟨hnone, -⟩ | ⟨unit, hread, _, _, _, hinside, -, hreaches, -⟩ := located_of_compileUnit h
  · cases hnone.symm.trans hlibrary
  · obtain rfl := Option.some.inj (hinside.symm.trans hlibrary)
    exact hreaches.isWord fun _ => Program.isWord_of_import hread

/-- **A source cannot lead out of a directory.** Whatever a unit and its
libraries say, a loader is asked about words only, so the file it looks for is
right in the library directory. How it answers otherwise, or what it would
call other files, changes nothing. The libraries of the unit are words, so
each header goes right into the output directory; and so is the library that
an error is found in, whose text is shown with it. -/
theorem compileUnit_confined (loader : Loader Id) (d : Dialect) (mode : Cpp.Mode)
    (source : String) :
    (∃ asked, (compileUnit loader.overheard d mode source).run.run [] =
        (compileUnit loader d mode source, asked) ∧
      ∀ name ∈ asked, IsWord name ∧
        ∀ directory, Path.IsEntry directory (libraryFile name) (libraryPath directory name)) ∧
    (∀ other : Loader Id, loader.AgreeOnWords other →
      compileUnit other d mode source = compileUnit loader d mode source) ∧
    (∀ unit, compileUnit loader d mode source = .ok unit →
      ∀ header ∈ unit.libraries, IsWord header.name ∧
        ∀ directory, Path.IsEntry directory (headerFile header.name)
          (Path.join directory (headerFile header.name))) ∧
    ∀ e, compileUnit loader d mode source = .error e →
      ∀ library, e.library? = some library → IsWord library := by
  have hnil : ∀ name ∈ ([] : List String), IsWord name := List.forall_mem_nil _
  obtain ⟨asked, hrun, -, hasked⟩ :=
    (Loader.AgreeOnWords.refl loader).serves_overheard.compileUnit d mode source hnil
  refine ⟨⟨asked, hrun, fun name hname => ?_⟩, fun other hother => ?_, fun unit hunit => ?_, ?_⟩
  · exact ⟨hasked name hname, (hasked name hname).isEntry_libraryPath⟩
  · -- the same loader answers for both
    obtain ⟨_, hrun', -⟩ := hother.serves_overheard.compileUnit d mode source hnil
    exact (Prod.mk.inj (hrun'.symm.trans hrun)).1
  · intro header hheader
    have hword := isWord_of_mem_libraries hunit hheader
    exact ⟨hword, hword.isEntry_headerFile⟩
  · exact fun e he library hlibrary => isWord_of_library? he hlibrary

/-- A shelf with a diamond of libraries and one that does not compile. -/
def faultyShelf : Shelf := ("e", .text "dec i32 x y") :: Loader.diamondShelf

/-- A loader that has a library in every other directory, too. -/
def Loader.everywhere (loader : Loader Id) : Loader Id where
  contains name := name.toList.contains '/' || loader.contains name
  load := loader.load
  describe name := if name.toList.contains '/' then "" else loader.describe name
  limit := loader.limit

theorem Loader.agreeOnWords_everywhere (loader : Loader Id) :
    loader.AgreeOnWords loader.everywhere := by
  have hnone (name : String) (h : IsWord name) : name.toList.contains '/' = false := by
    rw [← Bool.not_eq_true, List.contains_iff_mem]
    exact h.slash_notMem
  refine ⟨fun name h => ?_, fun _ _ => rfl, fun name h => ?_, rfl⟩
  · show loader.has name = (name.toList.contains '/' || loader.has name)
    rw [hnone name h, Bool.false_or]
  · show loader.describe name = if name.toList.contains '/' then "" else loader.describe name
    rw [hnone name h]
    rfl

theorem compileUnit_confined_diamond :
    (compileUnit faultyShelf.pureLoader.everywhere .maple .program "lib @a" =
      compileUnit faultyShelf.pureLoader .maple .program "lib @a") ∧
    (∃ unit, compileUnit faultyShelf.pureLoader .maple .program "lib @a" = .ok unit ∧
      unit.libraries.map Header.name = ["d", "b", "c", "a"] ∧
      ∀ header ∈ unit.libraries, IsWord header.name) ∧
    ∃ e, compileUnit faultyShelf.pureLoader .maple .program "lib @e" = .error e ∧
      e.library? = some "e" ∧ IsWord "e" := by
  have hnames : (match compileUnit faultyShelf.pureLoader .maple .program "lib @a" with
      | .ok unit => unit.libraries.map Header.name
      | .error _ => []) = ["d", "b", "c", "a"] := by decide +kernel
  have hfault : (match compileUnit faultyShelf.pureLoader .maple .program "lib @e" with
      | .ok _ => none
      | .error e => e.library?) = some "e" := by decide +kernel
  obtain ⟨-, hagree, hlibraries, -⟩ :=
    compileUnit_confined faultyShelf.pureLoader .maple .program "lib @a"
  obtain ⟨-, -, -, herror⟩ := compileUnit_confined faultyShelf.pureLoader .maple .program "lib @e"
  refine ⟨hagree _ (Loader.agreeOnWords_everywhere _), ?_, ?_⟩
  · cases hunit : compileUnit faultyShelf.pureLoader .maple .program "lib @a" with
    | error e =>
      rw [hunit] at hnames
      cases hnames
    | ok unit =>
      rw [hunit] at hnames
      exact ⟨unit, rfl, hnames, fun x hx => (hlibraries unit hunit x hx).1⟩
  · cases hunit : compileUnit faultyShelf.pureLoader .maple .program "lib @e" with
    | ok unit =>
      rw [hunit] at hfault
      cases hfault
    | error e =>
      rw [hunit] at hfault
      exact ⟨e, rfl, hfault, herror e hunit _ hfault⟩

end MapleCompiler
