import MapleCompiler.Library.Resolution

/-!
# Loaders with a state

Asking a loader may change what it answers next: a source can be gone once it
was read, or be another one every time. So nothing holds of its libraries that
depends on reading them twice. But whatever a loader does, the headers that come
out of it are all made in the same way, each from a text that was read as a
library (`Loader.resolve_made`).

`Ends` says that a computation has a property whenever it succeeds, from any
state. It goes through the steps of a computation (`Ends.bind`) and through its
loops (`Ends.foldlM`).
-/

namespace MapleCompiler

/-- **All results of a computation have a property**, from whatever state it
starts. -/
def Ends {σ ε α : Type} (P : α → Prop) (x : ExceptT ε (StateM σ) α) : Prop :=
  ∀ s a s', x.run.run s = (.ok a, s') → P a

namespace Ends

variable {σ ε ε' α β : Type} {P : α → Prop} {Q : β → Prop}

theorem pure {a : α} (h : P a) : Ends P (Pure.pure a : ExceptT ε (StateM σ) α) := by
  intro s b s' hrun
  cases hrun
  exact h

theorem throw (e : ε) : Ends P (MonadExcept.throw e : ExceptT ε (StateM σ) α) := by
  intro s b s' hrun
  cases hrun

theorem any (x : ExceptT ε (StateM σ) α) : Ends (fun _ => True) x :=
  fun _ _ _ _ => trivial

theorem ofExcept (e : Except ε α) :
    Ends (fun a => e = .ok a) (liftM e : ExceptT ε (StateM σ) α) := by
  intro s a s' hrun
  exact congrArg Prod.fst hrun

theorem bind {x : ExceptT ε (StateM σ) α} {f : α → ExceptT ε (StateM σ) β} (hx : Ends P x)
    (hf : ∀ a, P a → Ends Q (f a)) : Ends Q (x >>= f) := by
  intro s b s' hrun
  rw [ExceptT.run_bind, StateT.run_bind] at hrun
  cases hstep : x.run.run s with
  | mk result s₁ =>
    rw [hstep] at hrun
    cases result with
    | ok a => exact hf a (hx s a s₁ hstep) s₁ b s' hrun
    | error e => cases hrun

theorem adapt {x : ExceptT ε (StateM σ) α} (h : Ends P x) (f : ε → ε') : Ends P (x.adapt f) := by
  intro s a s' hrun
  have hrun : (x.run.run s).map (Except.mapError f) id = (.ok a, s') := hrun
  cases hstep : x.run.run s with
  | mk result s₁ =>
    rw [hstep] at hrun
    cases result with
    | ok b =>
      cases hrun
      exact h s _ _ hstep
    | error e => cases hrun

theorem foldlM {f : α → β → ExceptT ε (StateM σ) α} {init : α} {xs : List β} (hinit : P init)
    (hstep : ∀ a x, P a → Ends P (f a x)) : Ends P (xs.foldlM f init) := by
  induction xs generalizing init with
  | nil => exact .pure hinit
  | cons x xs ih =>
    rw [List.foldlM_cons]
    exact (hstep init x hinit).bind fun a ha => ih ha

end Ends

/-- **A header that is made from its source.** -/
def Header.IsMade (header : Header) : Prop :=
  ∃ program warnings, Program.ofText .maple true header.source = .ok (program, warnings) ∧
    header.code = program.cpp .library

namespace Loader

variable {σ : Type} (loader : Loader (StateM σ))

/-- **One library adds a header that is made**, if those that it imports do.
The depth goes down by one at its imports, where the assumption is used. -/
theorem compile_made_step {depth : Nat}
    (ih : ∀ n, depth = n + 1 → ∀ opened name site? done, (∀ header ∈ done, header.IsMade) →
      Ends (fun done => ∀ header ∈ done, header.IsMade) (loader.compile n opened name site? done))
    (opened : List String) (name : String) (site? : Option Span) {done : List Header}
    (hdone : ∀ header ∈ done, header.IsMade) :
    Ends (fun done => ∀ header ∈ done, header.IsMade)
      (loader.compile depth opened name site? done) := by
  unfold compile
  split
  · exact .pure hdone
  split
  · exact .throw _
  refine (Ends.any _).bind fun present _ => ?_
  split
  · exact .throw _
  refine (Ends.any _).bind fun text _ => ?_
  cases text with
  | error message => exact .throw _
  | ok source =>
    cases depth with
    | zero => exact .throw _
    | succ depth =>
      refine Ends.adapt ?_ _
      refine (Ends.ofExcept (Program.ofText .maple true source)).bind fun unit hunit => ?_
      obtain ⟨program, warnings⟩ := unit
      have himports : Ends (fun done => ∀ header ∈ done, header.IsMade)
          (program.importSites.foldlM (fun done site =>
            loader.compile depth (name :: opened) site.1 (some site.2) done) done) :=
        Ends.foldlM hdone fun done site hdone => ih depth rfl _ site.1 (some site.2) done hdone
      refine himports.bind fun done hdone => .pure (List.forall_mem_append.mpr ⟨hdone, ?_⟩)
      have hmade : Header.IsMade ⟨name, source, program.cpp .library, warnings⟩ := by
        refine ⟨program, warnings, hunit, ?_⟩
        dsimp only
      exact List.forall_mem_singleton.mpr hmade

theorem compile_made (depth : Nat) (opened : List String) (name : String) (site? : Option Span)
    {done : List Header} (hdone : ∀ header ∈ done, header.IsMade) :
    Ends (fun done => ∀ header ∈ done, header.IsMade)
      (loader.compile depth opened name site? done) := by
  induction depth generalizing opened name site? done with
  | zero =>
    exact loader.compile_made_step (fun n hn => absurd hn (Nat.zero_ne_add_one n)) opened name
      site? hdone
  | succ depth ih =>
    refine loader.compile_made_step (fun n hn opened name site? done hdone => ?_) opened name site?
      hdone
    obtain rfl := Nat.succ.inj hn
    exact ih opened name site? hdone

/-- **All headers that a unit needs are made from their sources.** This is
said of loaders with any state, which may answer differently each time. -/
theorem resolve_made (program : Program) :
    Ends (fun headers => ∀ header ∈ headers, header.IsMade) (loader.resolve program) :=
  Ends.foldlM nofun fun _ site hdone =>
    loader.compile_made loader.limit [] site.1 (some site.2) hdone

end Loader

end MapleCompiler
