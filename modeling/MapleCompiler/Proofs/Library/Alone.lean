import MapleCompiler.Proofs.Library.Location
import MapleCompiler.Proofs.Library.Order

/-!
# A library by itself

A library is compiled when something imports it, or by itself. The two walks
begin at different places, meet the libraries in different orders and find
different ones compiled already. Still the header is the same: a compiled
library is compiled from its own text, and the other libraries only decide
whether it can be compiled at all.

So what has to be shown is that the second walk succeeds. An ordered list of
compiled libraries is the reason (`Loader.Listed.exists_compileOne`): what a
library imports stands before it, so a walk that begins at a place of the list
only goes towards its front. It meets nothing that is opened, and it is no deeper
than the list is long.

Main statement: `compileLibrary_of_resolve`.
-/

namespace MapleCompiler

namespace Loader

variable {loader : Loader Id}

/-- Steps that succeed from any list make a run that succeeds. A run that
failed would have a step that does, from some list. -/
theorem exists_compileAll {depth : Nat} {opened : List String} {sites : List (String × Span)}
    (h : ∀ site ∈ sites, ∀ done, ∃ done',
      loader.compileOne depth opened site.1 (some site.2) done = .ok done')
    (done : List Header) : ∃ done', loader.compileAll depth opened sites done = .ok done' := by
  cases hrun : loader.compileAll depth opened sites done with
  | ok done' => exact ⟨done', rfl⟩
  | error e =>
    obtain ⟨site, hsite, done', he⟩ := exists_of_compileAll_eq_error hrun
    obtain ⟨done'', hok⟩ := h site hsite done'
    cases he.symm.trans hok

/-- **A listed library can be compiled again**, after any others, if none of
those up to its place is opened and there is room for them. By induction on
the depth: its imports stand before it. -/
theorem Listed.exists_compileOne {headers : List Header} (hd : loader.Listed headers)
    (depth : Nat) :
    ∀ (before : List Header) (x : Header) (after : List Header) (opened : List String)
      (site? : Option Span) (done : List Header), headers = before ++ x :: after →
      before.length < depth → (∀ name ∈ opened, name ∉ (before ++ [x]).map Header.name) →
        ∃ done', loader.compileOne depth opened x.name site? done = .ok done' := by
  induction depth with
  | zero => exact fun _ _ _ _ _ _ _ hroom => absurd hroom (Nat.not_lt_zero _)
  | succ depth ih =>
    intro before x after opened site? done heq hroom hopened
    by_cases hdone : x.name ∈ done.map Header.name
    · exact ⟨done, (compileOne_eq_ok_iff ..).mpr (.inl ⟨hdone, rfl⟩)⟩
    have hx : x ∈ headers := heq ▸ List.mem_append_right _ List.mem_cons_self
    obtain ⟨unit, hr, -⟩ := hd.compiled x hx
    have hfresh : x.name ∉ opened := fun hmem =>
      hopened _ hmem (List.mem_map_of_mem (List.mem_append_right _ (List.mem_singleton_self _)))
    have hunique : x.name ∉ before.map Header.name := by
      have hnodup := hd.nodup
      rw [heq, List.map_append, List.map_cons] at hnodup
      exact fun hmem => (List.nodup_append.mp hnodup).2.2 _ hmem _ List.mem_cons_self rfl
    have himports : ∀ site ∈ unit.1.importSites, ∀ done, ∃ done',
        loader.compileOne depth (x.name :: opened) site.1 (some site.2) done = .ok done' := by
      intro site hsite done
      have hmem : site.1 ∈ before.map Header.name :=
        hd.ordered before x after heq _ ⟨x.source, unit, hr, List.mem_map_of_mem hsite⟩
      obtain ⟨y, hy, hname⟩ := List.mem_map.mp hmem
      obtain ⟨front, back, rfl⟩ := List.append_of_mem hy
      have hpart : ∀ name ∈ (front ++ [y]).map Header.name,
          name ∈ (front ++ y :: back).map Header.name := by
        intro name hn
        rw [List.append_cons front y back, List.map_append]
        exact List.mem_append_left _ hn
      rw [← hname]
      refine ih front y (back ++ x :: after) (x.name :: opened) _ done ?_ ?_ ?_
      · rw [heq, List.append_assoc, List.cons_append]
      · rw [List.length_append, List.length_cons] at hroom
        omega
      · intro name hn hmem
        rcases List.mem_cons.mp hn with rfl | hn
        · exact hunique (hpart _ hmem)
        · refine hopened name hn ?_
          rw [List.map_append]
          exact List.mem_append_left _ (hpart _ hmem)
    obtain ⟨before', ha⟩ := exists_compileAll himports done
    exact ⟨_, (compileOne_eq_ok_iff ..).mpr
      (.inr ⟨hdone, hfresh, depth, x.source, unit, before', rfl, hr, ha, rfl⟩)⟩

/-- The compiled libraries of a program are no more than a finite loader has:
each of them is one of its names, and none stands on the list twice. -/
theorem Listed.length_le {headers : List Header} (hd : loader.Listed headers)
    (hf : loader.IsFinite) : headers.length ≤ loader.limit := by
  obtain ⟨names, hnames, hlength⟩ := hf
  have hsubset : headers.map Header.name ⊆ names := by
    intro name hn
    obtain ⟨x, hx, rfl⟩ := List.mem_map.mp hn
    obtain ⟨unit, hr, -⟩ := hd.compiled x hx
    exact hnames _ hr.1
  have hle := hd.nodup.length_le_of_subset hsubset
  rw [List.length_map] at hle
  exact hle.trans hlength

/-- The bound of a loader does not matter for which lists are in order, since
neither what a library imports nor its header depends on it. -/
theorem Listed.withLimit {headers : List Header} (hd : loader.Listed headers) (limit : Nat) :
    ({ loader with limit := limit } : Loader Id).Listed headers :=
  ⟨hd.nodup, hd.compiled, hd.ordered⟩

/-- **A library by itself comes last**: a walk that begins with it and
succeeds ends with its header. -/
theorem resolveLibrary_last {name : String} {headers : List Header}
    (h : loader.resolveLibrary name = .ok headers) :
    ∃ before x, headers = before ++ [x] ∧ x.name = name ∧ loader.Compiled x ∧
      compileLibrary loader name = .ok x.code := by
  have hwalk : loader.compileOne loader.limit [] name none [] = .ok headers := h
  obtain ⟨hnil, -⟩ | ⟨-, -, below, source, unit, before, -, hr, -, rfl⟩ :=
    (loader.compileOne_eq_ok_iff ..).mp hwalk
  · exact absurd hnil List.not_mem_nil
  · have hcompiled : loader.Compiled ⟨name, source, unit.1.cpp .library, unit.2⟩ := by
      refine ⟨unit, hr, ?_, ?_⟩ <;> dsimp only
    refine ⟨before, _, rfl, by dsimp only, hcompiled, ?_⟩
    rw [compileLibrary_eq, hwalk]
    dsimp only
    rw [List.getLast?_concat]

/-- A library has one header: the loader has one text under its name, and that
has one reading. -/
theorem Compiled.code_eq {x y : Header} (hx : loader.Compiled x) (hy : loader.Compiled y)
    (hname : x.name = y.name) : x.code = y.code := by
  obtain ⟨unit, hr, hcode, -⟩ := hx
  obtain ⟨unit', hr', hcode', -⟩ := hy
  rw [hname] at hr
  obtain ⟨-, rfl⟩ := hr.unique hr'
  rw [hcode, hcode']

/-- **A listed library compiles by itself to its header**, if there is room
for the list. -/
theorem Listed.compileLibrary_eq {headers : List Header} (hd : loader.Listed headers)
    (hroom : headers.length ≤ loader.limit) {x : Header} (hx : x ∈ headers) :
    compileLibrary loader x.name = .ok x.code := by
  obtain ⟨before, after, heq⟩ := List.append_of_mem hx
  have hlength : before.length < loader.limit := by
    rw [heq, List.length_append, List.length_cons] at hroom
    omega
  obtain ⟨alone, hwalk⟩ := hd.exists_compileOne loader.limit before x after [] none [] heq hlength
    fun name hn => absurd hn List.not_mem_nil
  obtain ⟨-, y, -, hname, hy, hcode⟩ := resolveLibrary_last hwalk
  rw [hcode, hy.code_eq (hd.compiled x hx) hname]

end Loader

/-- **A library's header does not depend on who imports it.** Every library
that resolving a program lists compiles by itself, and to the header that it
has there. A finite loader has the room for it; of any other loader, a bound
as large as the list is enough.

A library that is compiled by itself is always the last one on its list, and
what its compilation fails with is what the walk fails with. -/
theorem compileLibrary_of_resolve (loader : Loader Id) :
    (∀ program headers, loader.resolve program = .ok headers → ∀ x ∈ headers,
      (loader.IsFinite → compileLibrary loader x.name = .ok x.code) ∧
      ∀ limit, headers.length ≤ limit →
        compileLibrary ({ loader with limit := limit } : Loader Id) x.name = .ok x.code) ∧
    (∀ name headers, loader.resolveLibrary name = .ok headers →
      ∃ before x, headers = before ++ [x] ∧ x.name = name ∧
        compileLibrary loader name = .ok x.code) ∧
    (∀ name e, compileLibrary loader name = .error e → loader.resolveLibrary name = .error e) := by
  refine ⟨fun program headers h x hx => ?_, fun name headers h => ?_, fun name e h => ?_⟩
  · have hlisted := (Loader.resolve_extends h).listed
    exact ⟨fun hf => hlisted.compileLibrary_eq (hlisted.length_le hf) hx,
      fun limit hlimit => (hlisted.withLimit limit).compileLibrary_eq hlimit hx⟩
  · obtain ⟨before, x, heq, hname, -, hcode⟩ := Loader.resolveLibrary_last h
    exact ⟨before, x, heq, hname, hcode⟩
  · exact compileOne_of_compileLibrary_eq_error h

/-- Of two libraries that share a third, the second one is compiled when the
third is there already. By itself it compiles the third one first, to the same
header. -/
theorem compileLibrary_of_resolve_diamond :
    Loader.diamondShelf.pureLoader.IsFinite ∧
      ∃ headers x, Loader.diamondShelf.pureLoader.resolve Loader.diamondProgram = .ok headers ∧
        headers.map Header.name = ["d", "b", "c", "a"] ∧ x ∈ headers ∧ x.name = "c" ∧
        compileLibrary Loader.diamondShelf.pureLoader "c" = .ok x.code := by
  have hf := Loader.diamondShelf.isFinite_pureLoader
  have hnames : ((Loader.diamondShelf.pureLoader.resolve Loader.diamondProgram).run.toOption.map
      fun headers => headers.map Header.name) = some ["d", "b", "c", "a"] := by decide +kernel
  obtain ⟨headers, hresolve, hlist⟩ := Option.map_eq_some_iff.mp hnames
  have hrun : Loader.diamondShelf.pureLoader.resolve Loader.diamondProgram = .ok headers := by
    cases h : (Loader.diamondShelf.pureLoader.resolve Loader.diamondProgram).run with
    | error e => simp [h, Except.toOption] at hresolve
    | ok headers' =>
      rw [h] at hresolve
      exact h.trans (congrArg Except.ok (Option.some.inj hresolve))
  have hc : "c" ∈ headers.map Header.name := by rw [hlist]; simp
  obtain ⟨x, hx, hname⟩ := List.mem_map.mp hc
  refine ⟨hf, headers, x, hrun, hlist, hx, hname, ?_⟩
  rw [← hname]
  exact ((compileLibrary_of_resolve _).1 _ headers hrun x hx).1 hf

end MapleCompiler
