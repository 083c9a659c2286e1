import MapleCompiler.Proofs.Library.Graph

/-!
# The order of compiled libraries

A walk through the import graph lists each library it compiles after those
that the library imports. `Loader.Listed` is what holds of the list at any
time of the walk: no name twice, every header made from the loader's own text,
every import of a header before it. `Loader.Extends` is what one step, or a
run of steps, does to such a list: it only adds at the end, it adds nothing
that is opened, and what it adds is reached from what it was asked for.

The names that are opened are the reason why no name comes twice. While the
imports of a library are compiled its own name is opened, so none of them can
add it, and it can be added after them.
-/

namespace MapleCompiler.Loader

/-- A header of the library that the loader has under its name. -/
def Compiled (loader : Loader Id) (h : Header) : Prop :=
  ∃ unit, loader.Reads h.name h.source unit ∧ h.code = unit.1.cpp .library ∧ h.warnings = unit.2

/-- **A list of compiled libraries in order.** -/
structure Listed (loader : Loader Id) (done : List Header) : Prop where
  /-- No library stands in it twice. -/
  nodup : (done.map Header.name).Nodup
  /-- Every header is that of its library. -/
  compiled : ∀ h ∈ done, loader.Compiled h
  /-- What a library imports stands before it. -/
  ordered : ∀ before h after, done = before ++ h :: after →
    ∀ name, loader.Imports h.name name → name ∈ before.map Header.name

/-- **What compiling some libraries does to a list**, with others opened. -/
structure Extends (loader : Loader Id) (opened roots : List String) (done done' : List Header) :
    Prop where
  listed : loader.Listed done'
  /-- Nothing on the list moves. -/
  grows : done <+: done'
  /-- All that was asked for is on the list. -/
  covers : ∀ name ∈ roots, name ∈ done'.map Header.name
  /-- Nothing else is added than what is reached, and nothing that is opened. -/
  reached : ∀ name ∈ done'.map Header.name,
    name ∈ done.map Header.name ∨ name ∉ opened ∧ loader.Reaches roots name

variable {loader : Loader Id}

theorem listed_nil : loader.Listed [] where
  nodup := List.nodup_nil
  compiled h hh := absurd hh List.not_mem_nil
  ordered before h after hd := by simp at hd

/-- A library whose imports are all listed can be listed next, if it is not on
the list. -/
theorem Listed.snoc {done : List Header} {name source : String}
    {unit : Program × List Warning} (hd : loader.Listed done)
    (hr : loader.Reads name source unit) (hn : name ∉ done.map Header.name)
    (hi : ∀ b ∈ unit.1.imports, b ∈ done.map Header.name) :
    loader.Listed (done ++ [⟨name, source, unit.1.cpp .library, unit.2⟩]) where
  nodup := by
    rw [List.map_append, List.map_singleton]
    exact List.nodup_append.mpr ⟨hd.nodup, List.nodup_singleton _,
      fun a ha b hb => by rw [List.mem_singleton.mp hb]; rintro rfl; exact hn ha⟩
  compiled h hh := by
    rcases List.mem_append.mp hh with hh | hh
    · exact hd.compiled h hh
    · obtain rfl := List.mem_singleton.mp hh
      refine ⟨unit, hr, ?_, ?_⟩ <;> dsimp only
  ordered before h after heq b hb := by
    -- either the header is the new one, or the old list splits at the same place
    rcases List.eq_nil_or_concat' after with rfl | ⟨after', last, rfl⟩
    · have hsplit := List.append_inj' heq (by simp)
      have hname : h.name = name := by rw [← List.singleton_inj.mp hsplit.2]
      obtain ⟨source', unit', hr', hb'⟩ := hb
      rw [hname] at hr'
      obtain ⟨rfl, rfl⟩ := hr.unique hr'
      rw [← hsplit.1]
      exact hi b hb'
    · rw [← List.cons_append, ← List.append_assoc] at heq
      exact hd.ordered before h after' (List.append_inj_left' heq (by simp)) b hb

/-! ## One step and a run of steps -/

/-- A library that is on the list leaves it as it is. -/
theorem Listed.extends_self {done : List Header} {opened : List String} {name : String}
    (hd : loader.Listed done) (hn : name ∈ done.map Header.name) :
    loader.Extends opened [name] done done where
  listed := hd
  grows := List.prefix_rfl
  covers n h := by rwa [List.mem_singleton.mp h]
  reached _ h := .inl h

/-- **The run lemma**: if every step extends the list, so do the steps for a
list of imports together. By induction on the imports. -/
theorem compileAll_extends {depth : Nat} {opened : List String}
    (hstep : ∀ name site? done done', loader.Listed done →
      loader.compileOne depth opened name site? done = .ok done' →
        loader.Extends opened [name] done done') :
    ∀ (sites : List (String × Span)) (done done' : List Header), loader.Listed done →
      loader.compileAll depth opened sites done = .ok done' →
        loader.Extends opened (sites.map Prod.fst) done done' := by
  intro sites
  induction sites with
  | nil =>
    intro done done' hd h
    obtain rfl := Except.ok.inj h
    exact ⟨hd, List.prefix_rfl, fun _ hn => absurd hn List.not_mem_nil, fun _ hn => .inl hn⟩
  | cons site sites ih =>
    intro done done' hd h
    rw [compileAll_cons] at h
    cases hf : loader.compileOne depth opened site.1 (some site.2) done with
    | error e => simp [hf] at h
    | ok mid =>
      simp only [hf] at h
      have hfirst := hstep site.1 (some site.2) done mid hd hf
      have hrest := ih mid done' hfirst.listed h
      have hsub : ∀ n ∈ mid.map Header.name, n ∈ done'.map Header.name :=
        fun n hn => (hrest.grows.map _).subset hn
      refine ⟨hrest.listed, hfirst.grows.trans hrest.grows, fun n hn => ?_, fun n hn => ?_⟩
      · rcases List.mem_cons.mp hn with rfl | hn
        · exact hsub _ (hfirst.covers _ (List.mem_singleton_self _))
        · exact hrest.covers n hn
      · rcases hrest.reached n hn with hn | ⟨ho, root, hroot, hpath⟩
        · rcases hfirst.reached n hn with hn | ⟨ho, root, hroot, hpath⟩
          · exact .inl hn
          · rw [List.mem_singleton.mp hroot] at hpath
            exact .inr ⟨ho, site.1, List.mem_cons_self, hpath⟩
        · exact .inr ⟨ho, root, List.mem_cons_of_mem _ hroot, hpath⟩

/-- **The step lemma**: compiling one library extends the list. By induction
on the depth: the imports extend it first, and then the library can be
listed. -/
theorem compileOne_extends (depth : Nat) :
    ∀ (opened : List String) (name : String) (site? : Option Span) (done done' : List Header),
      loader.Listed done → loader.compileOne depth opened name site? done = .ok done' →
        loader.Extends opened [name] done done' := by
  induction depth with
  | zero =>
    intro opened name site? done done' hd h
    rcases (compileOne_eq_ok_iff ..).mp h with ⟨hn, rfl⟩ | ⟨-, -, below, -, -, -, hz, -⟩
    · exact hd.extends_self hn
    · cases hz
  | succ depth ih =>
    intro opened name site? done done' hd h
    rcases (compileOne_eq_ok_iff ..).mp h with
      ⟨hn, rfl⟩ | ⟨hn, ho, below, source, unit, before, hb, hr, ha, rfl⟩
    · exact hd.extends_self hn
    obtain rfl := Nat.succ.inj hb
    have hin : loader.Extends (name :: opened) unit.1.imports done before :=
      compileAll_extends (ih (name :: opened)) unit.1.importSites done before hd ha
    -- the imports were compiled with `name` opened, so none of them added it
    have hfresh : name ∉ before.map Header.name := by
      intro hmem
      rcases hin.reached name hmem with hmem | ⟨hno, -⟩
      · exact hn hmem
      · exact hno List.mem_cons_self
    refine ⟨hin.listed.snoc hr hfresh hin.covers, hin.grows.trans (List.prefix_append _ _),
      fun n h => ?_, fun n h => ?_⟩
    · rw [List.mem_singleton.mp h, List.map_append, List.mem_append]
      exact .inr (List.mem_singleton_self _)
    · rw [List.map_append, List.mem_append] at h
      rcases h with h | h
      · rcases hin.reached n h with h | ⟨hno, root, hroot, hpath⟩
        · exact .inl h
        · exact .inr ⟨fun hmem => hno (List.mem_cons_of_mem _ hmem), name,
            List.mem_singleton_self _, hpath.head ⟨source, unit, hr, hroot⟩⟩
      · rw [List.mem_singleton.mp h]
        exact .inr ⟨ho, name, List.mem_singleton_self _, .refl⟩

/-- What resolving a program makes of the empty list: an ordered one of all
that its imports lead to. -/
theorem resolve_extends {program : Program} {headers : List Header}
    (h : loader.resolve program = .ok headers) :
    loader.Extends [] program.imports [] headers :=
  compileAll_extends (compileOne_extends loader.limit []) program.importSites [] headers
    listed_nil h

/-! ## The result of a resolution -/

/-- A listed library has all that it leads to on the list. By induction on the
way to the other library. -/
theorem Listed.mem_of_reaches {done : List Header} {roots : List String} {name : String}
    (hd : loader.Listed done) (hroots : ∀ root ∈ roots, root ∈ done.map Header.name)
    (h : loader.Reaches roots name) : name ∈ done.map Header.name := by
  obtain ⟨root, hroot, hpath⟩ := h
  induction hpath with
  | refl => exact hroots root hroot
  | tail _ hbc ih =>
    obtain ⟨x, hx, rfl⟩ := List.mem_map.mp ih
    obtain ⟨before, after, rfl⟩ := List.append_of_mem hx
    rw [List.map_append]
    exact List.mem_append_left _ (hd.ordered before x after rfl _ hbc)

/-- **What resolving a program gives**: headers of different libraries, those
of exactly the libraries that the program's imports reach, each after the
libraries that its text imports, and each made from its own text alone. -/
theorem resolve_headers (loader : Loader Id) (program : Program) (headers : List Header)
    (h : loader.resolve program = .ok headers) :
    (headers.map Header.name).Nodup ∧
    (∀ name, name ∈ headers.map Header.name ↔ loader.Reaches program.imports name) ∧
    (∀ before x after, headers = before ++ x :: after →
      ∀ unit, Program.ofText .maple true x.source = .ok unit →
        ∀ name ∈ unit.1.imports, name ∈ before.map Header.name) ∧
    (∀ x ∈ headers, loader.has x.name = true ∧ loader.text x.name = .ok x.source ∧
      ∃ unit, Program.ofText .maple true x.source = .ok unit ∧
        x.code = unit.1.cpp .library ∧ x.warnings = unit.2) := by
  have hext := resolve_extends h
  refine ⟨hext.listed.nodup, fun name => ⟨fun hn => ?_, fun hn => ?_⟩, ?_, ?_⟩
  · rcases hext.reached name hn with hn | ⟨-, hn⟩
    · exact absurd hn List.not_mem_nil
    · exact hn
  · exact hext.listed.mem_of_reaches hext.covers hn
  · intro before x after heq unit hu name hn
    have hx : x ∈ headers := heq ▸ List.mem_append_right _ List.mem_cons_self
    obtain ⟨unit', ⟨hc, hl, hu'⟩, -⟩ := hext.listed.compiled x hx
    exact hext.listed.ordered before x after heq name ⟨x.source, unit, ⟨hc, hl, hu⟩, hn⟩
  · intro x hx
    obtain ⟨unit, ⟨hc, hl, hu⟩, hcode, hwarnings⟩ := hext.listed.compiled x hx
    exact ⟨hc, hl, unit, hu, hcode, hwarnings⟩

/-- A shelf where two libraries share a third. -/
def diamondShelf : Shelf :=
  [("a", .text "lib @b lib @c"), ("b", .text "lib @d"), ("c", .text "lib @d"),
    ("d", .text "dec i32 x 1")]

/-- A program that imports the top of the diamond. -/
def diamondProgram : Program := ⟨[.useLibrary "a" ⟨4, 2, 1, 5⟩]⟩

/-- The shared library of a diamond is listed once, before both that import
it. -/
theorem resolve_headers_diamond :
    ∃ headers, diamondShelf.pureLoader.resolve diamondProgram = .ok headers ∧
      headers.map Header.name = ["d", "b", "c", "a"] ∧
      ∀ name, name ∈ headers.map Header.name ↔
        diamondShelf.pureLoader.Reaches diamondProgram.imports name := by
  have hnames : (match (diamondShelf.pureLoader.resolve diamondProgram).run with
      | .ok headers => headers.map Header.name
      | .error _ => []) = ["d", "b", "c", "a"] := by decide +kernel
  cases h : (diamondShelf.pureLoader.resolve diamondProgram).run with
  | error e => simp [h] at hnames
  | ok headers =>
    simp only [h] at hnames
    exact ⟨headers, h, hnames, (resolve_headers _ _ headers h).2.1⟩

end MapleCompiler.Loader
