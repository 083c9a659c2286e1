import MapleCompiler.Proofs.Library.Location

/-!
# Loaders with a memory

A loader may keep a record of what it was asked, or refuse to give out a text
twice. As long as it answers as a loader without a memory does, compiling with it
gives what compiling without it gives, and its memory afterwards tells what it was
asked on the way.

A memory may answer differently the second time. So what it has to do is stated
with the libraries that were loaded before (`Loader.Serves`): to a first load it
answers as the other loader, to a second one as it likes. This is enough because
there is no second load. A library that is loaded is opened and then compiled, and
neither an opened nor a compiled library is loaded; if it is not compiled, an error
is on its way out and ends the walk. In the walk, "opened or compiled" is therefore
the list that `Loader.Serves` speaks about (`Loader.Serves.compile`).

Main statement: `loads_each_library_once`.
-/

namespace MapleCompiler

section Run

variable {σ ε α β : Type} {x : ExceptT ε (StateM σ) α} {f : α → ExceptT ε (StateM σ) β} {s s' : σ}

theorem run_bind_of_ok {a : α} (h : x.run.run s = (.ok a, s')) :
    (x >>= f).run.run s = (f a).run.run s' := by
  rw [ExceptT.run_bind, StateT.run_bind, h]
  rfl

theorem run_bind_of_error {e : ε} (h : x.run.run s = (.error e, s')) :
    (x >>= f).run.run s = (.error e, s') := by
  rw [ExceptT.run_bind, StateT.run_bind, h]
  rfl

theorem run_lift {x : StateM σ α} {a : α} (h : x.run s = (a, s')) :
    (liftM x : ExceptT ε (StateM σ) α).run.run s = (.ok a, s') := by
  show (Except.ok (x.run s).1, (x.run s).2) = (.ok a, s')
  rw [h]

theorem run_lift_bind {x : StateM σ α} {a : α} (h : x.run s = (a, s')) :
    ((liftM x : ExceptT ε (StateM σ) α) >>= f).run.run s = (f a).run.run s' :=
  run_bind_of_ok (run_lift h)

end Run

/-- **A computation with a state gives a result that is known**: from a state
in which `names` were loaded, it ends with `r`; if that is no error, those in
`after` were loaded then. -/
def Answers {σ ε α : Type} (I : List String → σ → Prop) (names : List String)
    (x : ExceptT ε (StateM σ) α) (r : Except ε α) (after : α → List String) : Prop :=
  ∀ s, I names s → ∃ s', x.run.run s = (r, s') ∧ (∃ any, I any s') ∧ ∀ a, r = .ok a → I (after a) s'

namespace Answers

variable {σ ε ε' α β : Type} {I : List String → σ → Prop} {names more : List String}

theorem pure (I : List String → σ → Prop) {names : List String} {a : α} {after : α → List String}
    (h : ∀ s, I names s → I (after a) s) :
    Answers I names (Pure.pure a : ExceptT ε (StateM σ) α) (.ok a) after := by
  refine fun s hs => ⟨s, rfl, ⟨names, hs⟩, fun b hb => ?_⟩
  cases hb
  exact h s hs

theorem throw (I : List String → σ → Prop) (names : List String) (e : ε)
    (after : α → List String) :
    Answers I names (MonadExcept.throw e : ExceptT ε (StateM σ) α) (.error e) after :=
  fun s hs => ⟨s, rfl, ⟨names, hs⟩, nofun⟩

/-- A step of the state comes first, and what it says is known. It may load
more, which the rest of the computation then begins with. -/
theorem step {x : StateM σ β} {f : β → ExceptT ε (StateM σ) α} {b : β} {r : Except ε α}
    {after : α → List String}
    (hx : ∀ s, I names s → ∃ s', x.run s = (b, s') ∧ I more s')
    (hf : Answers I more (f b) r after) :
    Answers I names ((liftM x : ExceptT ε (StateM σ) β) >>= f) r after := by
  intro s hs
  obtain ⟨s₁, hstep, hs₁⟩ := hx s hs
  obtain ⟨s', hrun, hs'⟩ := hf s₁ hs₁
  exact ⟨s', (run_lift_bind hstep).trans hrun, hs'⟩

/-- An error of the first part is that of the whole. -/
theorem bind {x : ExceptT ε (StateM σ) α} {f : α → ExceptT ε (StateM σ) β} {r : Except ε α}
    {out : Except ε β} {after : α → List String} {after' : β → List String}
    (hx : Answers I names x r after) (herror : ∀ e, r = .error e → out = .error e)
    (hf : ∀ a, r = .ok a → Answers I (after a) (f a) out after') :
    Answers I names (x >>= f) out after' := by
  intro s hs
  obtain ⟨s₁, hrun, hany, hs₁⟩ := hx s hs
  cases r with
  | error e =>
    rw [herror e rfl]
    exact ⟨s₁, run_bind_of_error hrun, hany, nofun⟩
  | ok a =>
    obtain ⟨s', hrest, hs'⟩ := hf a rfl s₁ (hs₁ a rfl)
    exact ⟨s', (run_bind_of_ok hrun).trans hrest, hs'⟩

theorem ofExcept (I : List String → σ → Prop) (names : List String) (r : Except ε α) :
    Answers I names (liftM r : ExceptT ε (StateM σ) α) r fun _ => names :=
  fun s hs => ⟨s, rfl, ⟨names, hs⟩, fun _ _ => hs⟩

theorem adapt {x : ExceptT ε (StateM σ) α} {r : Except ε α} {after : α → List String}
    (h : Answers I names x r after) {f : ε → ε'} {out : Except ε' α} (hout : r.mapError f = out) :
    Answers I names (x.adapt f) out after := by
  subst hout
  intro s hs
  obtain ⟨s', hrun, hany, hs'⟩ := h s hs
  refine ⟨s', ?_, hany, fun a ha => hs' a ?_⟩
  · show (x.run.run s).map (Except.mapError f) id = _
    rw [hrun]
    rfl
  · cases r with
    | error e => cases ha
    | ok b => exact congrArg Except.ok (Except.ok.inj ha)

end Answers

namespace Loader

variable {σ : Type}

/-- **A loader with a memory that answers as one without.** It is asked about
names in `asked` only. Its memory is as in `I names` while no others than
those in `names` were loaded, and it has to answer only the first time that it
is to load a library. -/
structure Serves (asked : String → Prop) (I : List String → σ → Prop)
    (loader : Loader (StateM σ)) (table : Loader Id) : Prop where
  /-- What texts import is among the names. -/
  imports : ∀ d library source unit, Program.ofText d library source = .ok unit →
    ∀ name ∈ unit.1.imports, asked name
  limit : loader.limit = table.limit
  describe : ∀ name, asked name → loader.describe name = table.describe name
  contains : ∀ names name, asked name → ∀ s, I names s →
    ∃ s', (loader.contains name).run s = (table.has name, s') ∧ I names s'
  load : ∀ names name, asked name → name ∉ names → ∀ s, I names s →
    ∃ s', (loader.load name).run s = (table.text name, s') ∧ I (name :: names) s'
  /-- More may have been loaded than was. -/
  mono : ∀ names names' s, names ⊆ names' → I names s → I names' s

/-- The libraries that a walk does not load: those opened and those
compiled. -/
def closed (opened : List String) (done : List Header) : List String :=
  opened ++ done.map Header.name

namespace Serves

variable {asked : String → Prop} {I : List String → σ → Prop} {loader : Loader (StateM σ)}
  {table : Loader Id}

/-- **The run lemma**: if every step gives what it gives without a memory, so
do the steps for a list of imports. By induction on the imports. -/
theorem compileAll {depth : Nat} {opened : List String}
    (hstep : ∀ name site? done, asked name → Answers I (closed opened done)
      (loader.compile depth opened name site? done)
      (table.compileOne depth opened name site? done) (closed opened))
    (sites : List (String × Span)) (hsites : ∀ site ∈ sites, asked site.1) (done : List Header) :
    Answers I (closed opened done)
      (sites.foldlM (fun done site =>
        loader.compile depth opened site.1 (some site.2) done) done)
      (table.compileAll depth opened sites done) (closed opened) := by
  induction sites generalizing done with
  | nil => exact .pure I fun _ hs => hs
  | cons site sites ih =>
    obtain ⟨hsite, hsites⟩ := List.forall_mem_cons.mp hsites
    rw [List.foldlM_cons, compileAll_cons]
    refine (hstep site.1 (some site.2) done hsite).bind (fun e he => ?_) fun done' hdone' => ?_
    · rw [he]
    · rw [hdone']
      exact ih hsites done'

/-- The part of a step that is inside the library: its text is read, its
imports are compiled, and its header is added. -/
theorem inside (h : loader.Serves asked I table) {depth : Nat}
    (hstep : ∀ opened name site? done, asked name → Answers I (closed opened done)
      (loader.compile depth opened name site? done)
      (table.compileOne depth opened name site? done) (closed opened))
    (opened : List String) (name source : String) (done : List Header) :
    Answers I (name :: closed opened done)
      ((do
        let (program, warnings) ← Program.ofText .maple true source
        let done ← program.importSites.foldlM
          (fun done (library, span) =>
            loader.compile depth (name :: opened) library (some span) done) done
        return done ++ [⟨name, source, program.cpp .library, warnings⟩] :
          ExceptT CompileError (StateM σ) (List Header)).adapt (·.inLibrary name))
      (match Program.ofText .maple true source with
      | .error e => .error (e.inLibrary name)
      | .ok (program, warnings) =>
        match table.compileAll depth (name :: opened) program.importSites done with
        | .error e => .error (e.inLibrary name)
        | .ok done => .ok (done ++ [⟨name, source, program.cpp .library, warnings⟩]))
      (closed opened) := by
  refine Answers.adapt (r := match Program.ofText .maple true source with
    | .error e => .error e
    | .ok (program, warnings) =>
      match table.compileAll depth (name :: opened) program.importSites done with
      | .error e => .error e
      | .ok done => .ok (done ++ [⟨name, source, program.cpp .library, warnings⟩])) ?_ ?_
  · refine (Answers.ofExcept I _ _).bind (fun e he => by rw [he]) fun unit hunit => ?_
    have hasked : ∀ site ∈ unit.1.importSites, asked site.1 := fun site hsite =>
      h.imports _ _ _ unit hunit _ (List.mem_map_of_mem hsite)
    rw [hunit]
    refine (compileAll (hstep (name :: opened)) unit.1.importSites hasked done).bind
      (fun e he => by simp only [he]) fun done' hdone' => ?_
    simp only [hdone']
    refine .pure I fun s hs => h.mono _ _ s (fun n hn => ?_) hs
    -- the library itself is opened no longer, but compiled
    simp only [closed, List.map_append, List.mem_append, List.mem_cons, List.map_cons,
      List.map_nil, List.not_mem_nil, or_false] at hn ⊢
    tauto
  · cases Program.ofText .maple true source with
    | error e => rfl
    | ok unit =>
      dsimp only
      cases table.compileAll depth (name :: opened) unit.1.importSites done <;> rfl

/-- **The step lemma**: compiling a library gives what it gives without a
memory, and nothing is loaded that is opened or compiled. -/
theorem compile_step (h : loader.Serves asked I table) {depth : Nat}
    (ih : ∀ below, depth = below + 1 → ∀ opened name site? done, asked name →
      Answers I (closed opened done) (loader.compile below opened name site? done)
        (table.compileOne below opened name site? done) (closed opened))
    (opened : List String) {name : String} (site? : Option Span) (done : List Header)
    (hname : asked name) :
    Answers I (closed opened done) (loader.compile depth opened name site? done)
      (table.compileOne depth opened name site? done) (closed opened) := by
  rw [compileOne_eq]
  unfold Loader.compile
  rw [any_name_eq]
  by_cases hdone : name ∈ done.map Header.name
  · rw [if_pos (decide_eq_true hdone), if_pos hdone]
    exact .pure I fun _ hs => hs
  rw [if_neg (by rwa [decide_eq_true_eq]), if_neg hdone]
  by_cases hopened : name ∈ opened
  · rw [if_pos (List.contains_iff_mem.mpr hopened), if_pos hopened]
    exact .throw I _ _ _
  rw [if_neg (by rwa [List.contains_iff_mem]), if_neg hopened]
  refine .step (h.contains _ name hname) ?_
  cases hhas : table.has name with
  | false => exact .throw I _ _ _
  | true =>
    have hfresh : name ∉ closed opened done := by
      rw [closed, List.mem_append, not_or]
      exact ⟨hopened, hdone⟩
    refine .step (h.load _ name hname hfresh) ?_
    cases htext : table.text name with
    | error message =>
      rw [h.describe name hname]
      exact .throw I _ _ _
    | ok source =>
      cases depth with
      | zero => exact .throw I _ _ _
      | succ below => exact h.inside (ih below rfl) opened name source done

/-- **Compiling one library** gives what it gives without a memory. By
induction on the depth, with the step lemma. -/
theorem compile (h : loader.Serves asked I table) (depth : Nat) :
    ∀ (opened : List String) (name : String) (site? : Option Span) (done : List Header),
      asked name → Answers I (closed opened done) (loader.compile depth opened name site? done)
        (table.compileOne depth opened name site? done) (closed opened) := by
  induction depth with
  | zero =>
    intro opened name site? done
    exact h.compile_step (fun below hb => absurd hb (Nat.zero_ne_add_one below)) opened site? done
  | succ depth ih =>
    intro opened name site? done
    refine h.compile_step (fun below hb => ?_) opened site? done
    obtain rfl := Nat.succ.inj hb
    exact ih

/-- **Compiling a unit** gives what it gives without a memory, and the memory
is in order afterwards. -/
theorem compileUnit (h : loader.Serves asked I table) (d : Dialect) (mode : Cpp.Mode)
    (source : String) {s : σ} (hs : I [] s) :
    ∃ s', (compileUnit loader d mode source).run.run s = (compileUnit table d mode source, s') ∧
      ∃ names, I names s' := by
  have hanswers : Answers I [] (MapleCompiler.compileUnit loader d mode source)
      (MapleCompiler.compileUnit table d mode source) fun unit => closed [] unit.libraries := by
    rw [compileUnit_eq]
    refine (Answers.ofExcept I _ _).bind (fun e he => by rw [he]) fun unit hunit => ?_
    have hasked : ∀ site ∈ unit.1.importSites, asked site.1 := fun site hsite =>
      h.imports _ _ _ unit hunit _ (List.mem_map_of_mem hsite)
    rw [hunit]
    unfold Loader.resolve
    rw [h.limit]
    exact (compileAll (h.compile table.limit []) unit.1.importSites hasked []).bind
      (fun e he => by simp only [he]) fun headers hheaders => by
        simp only [hheaders]
        exact .pure I fun _ hs => hs
  obtain ⟨s', hrun, hany, -⟩ := hanswers s hs
  exact ⟨s', hrun, hany⟩

/-- **Compiling a library by itself** gives what it gives without a memory, if
the library is one that may be asked for. -/
theorem compileLibrary (h : loader.Serves asked I table) {name : String} (hname : asked name)
    {s : σ} (hs : I [] s) :
    ∃ s', (compileLibrary loader name).run.run s = (compileLibrary table name, s') ∧
      ∃ names, I names s' := by
  obtain ⟨s', hrun, hany, -⟩ := h.compile table.limit [] name none [] hname s hs
  refine ⟨s', ?_, hany⟩
  rw [compileLibrary_eq]
  unfold MapleCompiler.compileLibrary resolveLibrary
  rw [h.limit]
  cases hwalk : table.compileOne table.limit [] name none [] with
  | error e => exact run_bind_of_error (hwalk ▸ hrun)
  | ok headers =>
    rw [run_bind_of_ok (hwalk ▸ hrun)]
    dsimp only
    cases headers.getLast? <;> rfl

end Serves

/-! ## Loaders that count -/

/-- A loader that notes down which libraries it is to load. -/
def recording (loader : Loader Id) : Loader (StateM (List String)) where
  contains name := return loader.contains name
  load name := do
    modify (name :: ·)
    return loader.load name
  describe := loader.describe
  limit := loader.limit

/-- **A loader that gives out every text only once.** -/
def once (loader : Loader Id) (message : String) : Loader (StateM (List String)) where
  contains name := return loader.contains name
  load name := do
    let served ← get
    set (name :: served)
    return if served.contains name then .error message else loader.load name
  describe := loader.describe
  limit := loader.limit

/-- Different libraries, none of them but those in `names`. -/
def Noted (names loads : List String) : Prop := loads.Nodup ∧ loads ⊆ names

theorem Noted.cons {names loads : List String} {name : String} (h : Noted names loads)
    (hname : name ∉ names) : Noted (name :: names) (name :: loads) :=
  ⟨List.nodup_cons.mpr ⟨fun hmem => hname (h.2 hmem), h.1⟩, List.cons_subset_cons name h.2⟩

/-- A loader that notes down what it loads, and answers a first load as the
table does. -/
theorem serves_of_noted {loader : Loader (StateM (List String))} {table : Loader Id}
    (hlimit : loader.limit = table.limit) (hdescribe : loader.describe = table.describe)
    (hcontains : ∀ name s, (loader.contains name).run s = (table.has name, s))
    (hload : ∀ name s, name ∉ s → (loader.load name).run s = (table.text name, name :: s)) :
    loader.Serves (fun _ => True) Noted table where
  imports _ _ _ _ _ _ _ := trivial
  limit := hlimit
  describe name _ := congrFun hdescribe name
  contains _ name _ s hs := ⟨s, hcontains name s, hs⟩
  load _ name _ hname s hs :=
    ⟨name :: s, hload name s fun hmem => hname (hs.2 hmem), hs.cons hname⟩
  mono _ _ _ hsubset hs := ⟨hs.1, List.Subset.trans hs.2 hsubset⟩

theorem serves_recording (loader : Loader Id) :
    loader.recording.Serves (fun _ => True) Noted loader :=
  serves_of_noted rfl rfl (fun _ _ => rfl) fun _ _ _ => rfl

theorem serves_once (loader : Loader Id) (message : String) :
    (loader.once message).Serves (fun _ => True) Noted loader := by
  refine serves_of_noted rfl rfl (fun _ _ => rfl) fun name s hname => ?_
  show (if s.contains name then .error message else loader.text name, name :: s) = _
  rw [if_neg (by rwa [List.contains_iff_mem])]

end Loader

/-- A shelf that has everything ready when it is asked for the first time
serves as one without a memory. What it does later does not matter. -/
theorem Shelf.serves_loader (shelf : Shelf) :
    shelf.loader.Serves (fun _ => True) Loader.Noted shelf.pureLoader := by
  refine Loader.serves_of_noted rfl rfl (fun _ _ => rfl) fun name s hname => ?_
  show (shelf.read name s, name :: s) = (shelf.read name [], name :: s)
  unfold Shelf.read
  have hserved : s.contains name = false := by
    rw [← Bool.not_eq_true, List.contains_iff_mem]
    exact hname
  rw [hserved]
  rfl

/-- **Every library is loaded at most once.** Whatever a unit and its
libraries import, in a compilation a loader is never to load the same library
twice. So a loader that gives out every text only once is as good as one that
always does. The same holds for a library that is compiled by itself, and for
a shelf, where texts of both kinds may stand. -/
theorem loads_each_library_once (loader : Loader Id) (message : String) (shelf : Shelf) :
    (∀ (d : Dialect) (mode : Cpp.Mode) (source : String),
      (∃ loads, (compileUnit loader.recording d mode source).run.run [] =
        (compileUnit loader d mode source, loads) ∧ loads.Nodup) ∧
      ((compileUnit (loader.once message) d mode source).run.run []).1 =
        compileUnit loader d mode source ∧
      ∃ loads, (compileUnit shelf.loader d mode source).run.run [] =
        (compileUnit shelf.pureLoader d mode source, loads) ∧ loads.Nodup) ∧
    (∀ name : String,
      (∃ loads, (compileLibrary loader.recording name).run.run [] =
        (compileLibrary loader name, loads) ∧ loads.Nodup) ∧
      ((compileLibrary (loader.once message) name).run.run []).1 = compileLibrary loader name ∧
      ∃ loads, (compileLibrary shelf.loader name).run.run [] =
        (compileLibrary shelf.pureLoader name, loads) ∧ loads.Nodup) := by
  have hnil : Loader.Noted [] [] := ⟨List.nodup_nil, List.nil_subset _⟩
  refine ⟨fun d mode source => ⟨?_, ?_, ?_⟩, fun name => ⟨?_, ?_, ?_⟩⟩
  · obtain ⟨loads, hrun, _, hnoted⟩ := loader.serves_recording.compileUnit d mode source hnil
    exact ⟨loads, hrun, hnoted.1⟩
  · obtain ⟨_, hrun, -⟩ := (loader.serves_once message).compileUnit d mode source hnil
    rw [hrun]
  · obtain ⟨loads, hrun, _, hnoted⟩ := shelf.serves_loader.compileUnit d mode source hnil
    exact ⟨loads, hrun, hnoted.1⟩
  · obtain ⟨loads, hrun, _, hnoted⟩ := loader.serves_recording.compileLibrary trivial hnil
    exact ⟨loads, hrun, hnoted.1⟩
  · obtain ⟨_, hrun, -⟩ := (loader.serves_once message).compileLibrary trivial hnil
    rw [hrun]
  · obtain ⟨loads, hrun, _, hnoted⟩ := shelf.serves_loader.compileLibrary trivial hnil
    exact ⟨loads, hrun, hnoted.1⟩

end MapleCompiler
