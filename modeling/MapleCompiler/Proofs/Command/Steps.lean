import MapleCompiler.Command.Run
import MapleCompiler.Host.Simulated
import MapleCompiler.Proofs.Diagnostic.Caret
import MapleCompiler.Proofs.Host.Writing
import MapleCompiler.Proofs.Library.Memory

/-!
# What a command does to the files of a machine

The command line runs in steps: it shows what it read, compiles, writes and tells
what it wrote. Each step may end the run. Whether it does, and which files there are
afterwards, does not depend on what was said on the streams before, so a step is
described on the files alone: `Command.Leaves`. The rules for it follow the way in which
steps are put together.

Everything up to the first write leaves the files as they are (`Command.leaves_compile`),
also where the text of a library is read a second time to show a fault in it. What the
compiler gets to see of the libraries is then the same throughout, and is a loader
without a memory (`FileTree.loader`). Writing does what `FileTree.store` does
(`Command.leaves_write`). No program is launched in these steps, so they are the same
whatever launching does.
-/

namespace MapleCompiler

/-- The file that a header is written to, and its text. -/
def Header.artifact (header : Header) : String × String := (headerFile header.name, header.code)

/-- **The files that a unit is written to**, by their names: the headers of
its libraries, and the program. -/
def CompiledUnit.artifacts (unit : CompiledUnit) (stem : String) : List (String × String) :=
  unit.libraries.map Header.artifact ++ [(outputFile stem, unit.code)]

/-- **The libraries in a directory of a tree.** -/
def FileTree.loader (t : FileTree) (directory : String) : Loader Id where
  contains name := t.isFile (libraryPath directory name)
  load name := Machine.told (t.readText (libraryPath directory name))
  describe := libraryPath directory
  limit := t.listing.length

/-- A machine whose files stay has the libraries of its tree. Looking for a
library and reading it do not change the files. -/
theorem FileTree.serves_loader (launch : Machine.Launcher) (t : FileTree) (directory : String) :
    ((Machine.host launch).loader directory t.listing.length).Serves (fun _ => True)
      (fun _ machine => machine.tree = t) (t.loader directory) where
  imports _ _ _ _ _ _ _ := trivial
  limit := rfl
  describe _ _ := rfl
  contains _ _ _ machine h := ⟨machine, by rw [← h]; rfl, h⟩
  load _ _ _ _ machine h := ⟨machine, by rw [← h]; rfl, h⟩
  mono _ _ _ _ h := h

namespace Command

variable {ε α β : Type} {t t₁ t' : FileTree} {launch : Machine.Launcher}

/-- **What a step does to files**: where they are those of `t`, it ends with
`r` and leaves those of `t'`. -/
def Leaves (t : FileTree) (x : ExceptT ε (StateM Machine) α) (r : Except ε α) (t' : FileTree) :
    Prop :=
  ∀ machine : Machine, machine.tree = t →
    ∃ after : Machine, x.run.run machine = (r, after) ∧ after.tree = t'

namespace Leaves

variable {x : ExceptT ε (StateM Machine) α} {f : α → ExceptT ε (StateM Machine) β}
  {r : Except ε β} {a : α} {e : ε}

theorem pure (t : FileTree) (a : α) :
    Leaves t (Pure.pure a : ExceptT ε (StateM Machine) α) (.ok a) t :=
  fun machine h => ⟨machine, rfl, h⟩

theorem throw (t : FileTree) (e : ε) :
    Leaves t (MonadExcept.throw e : ExceptT ε (StateM Machine) α) (.error e) t :=
  fun machine h => ⟨machine, rfl, h⟩

theorem bind (hx : Leaves t x (.ok a) t₁) (hf : Leaves t₁ (f a) r t') :
    Leaves t (x >>= f) r t' := by
  intro machine h
  obtain ⟨middle, hrun, hmiddle⟩ := hx machine h
  rw [run_bind_of_ok hrun]
  exact hf middle hmiddle

theorem bind_error (hx : Leaves t x (.error e) t') : Leaves t (x >>= f) (.error e) t' := by
  intro machine h
  obtain ⟨after, hrun, hafter⟩ := hx machine h
  exact ⟨after, run_bind_of_error hrun, hafter⟩

/-- An action of the machine that cannot fail is a step that leaves what the
action does. -/
theorem lift {x : StateM Machine α}
    (h : ∀ machine, machine.tree = t → ∃ after, x.run machine = (a, after) ∧ after.tree = t') :
    Leaves t (liftM x : ExceptT ε (StateM Machine) α) (.ok a) t' := by
  intro machine hmachine
  obtain ⟨after, hrun, hafter⟩ := h machine hmachine
  exact ⟨after, run_lift hrun, hafter⟩

/-- Steps for all elements of a list, each of which leaves the files as they
are. By induction on the list. -/
theorem forM {f : α → ExceptT ε (StateM Machine) PUnit} {xs : List α}
    (h : ∀ x ∈ xs, Leaves t (f x) (.ok ⟨⟩) t) : Leaves t (xs.forM f) (.ok ⟨⟩) t := by
  induction xs with
  | nil => exact .pure t _
  | cons x xs ih =>
    obtain ⟨hx, hxs⟩ := List.forall_mem_cons.mp h
    exact hx.bind (ih hxs)

/-- A step that is made only on request, and leaves the files as they are. -/
theorem optional {c : Bool} {x : ExceptT ε (StateM Machine) PUnit}
    {f : PUnit → ExceptT ε (StateM Machine) β} (hx : Leaves t x (.ok ⟨⟩) t)
    (hf : Leaves t (f ⟨⟩) r t') : Leaves t (if c = true then x >>= f else f ⟨⟩) r t' := by
  split
  · exact hx.bind hf
  · exact hf

end Leaves

/-! ## Messages -/

theorem leaves_complain (t : FileTree) (text : String) :
    Leaves t (liftM ((Machine.host launch).complain text) : Step (StateM Machine) Unit) (.ok ())
      t :=
  .lift fun machine h => ⟨machine.complain text, rfl, h⟩

theorem leaves_announce (t : FileTree) (coloured : Bool) (word text : String) :
    Leaves t (announce (Machine.host launch) coloured word text) (.ok ()) t :=
  .lift fun machine h => ⟨machine.print _, rfl, h⟩

theorem leaves_fail (t : FileTree) (coloured : Bool) (message : String) :
    Leaves t (fail (Machine.host launch) coloured message : Step (StateM Machine) α) (.error 1) t :=
  (leaves_complain t _).bind (.throw t 1)

/-! ## Compiling -/

/-- **A machine finds what its files say**: the unit, or the fault and the
text it is in. -/
theorem diagnose_run (t : FileTree) (directory : String) (d : Dialect) (mode : Cpp.Mode)
    (file : SourceFile) (machine : Machine) (hmachine : machine.tree = t) :
    ∃ after,
      (diagnose ((Machine.host launch).loader directory t.listing.length) d mode file).run machine =
      (diagnose (t.loader directory) d mode file, after) ∧ after.tree = t := by
  obtain ⟨after, hrun, -, hafter⟩ :=
    (t.serves_loader launch directory).compileUnit d mode file.text hmachine
  refine ⟨after, ?_, hafter⟩
  unfold diagnose
  rw [StateT.run_bind, hrun]
  cases hunit : compileUnit (t.loader directory) d mode file.text with
  | ok unit => rfl
  | error e =>
    have hreport :
        (((Machine.host launch).loader directory t.listing.length).reportError file e).run after =
        ((t.loader directory).reportError file e, after) := by
      unfold Loader.reportError
      cases e.library? with
      | none => rfl
      | some library =>
        rw [← hafter]
        rfl
    show (((Machine.host launch).loader directory t.listing.length).reportError file e >>=
      fun diagnostic =>
      Pure.pure (Except.error diagnostic)).run after = _
    rw [StateT.run_bind, hreport]
    rfl

variable {coloured : Bool} {options : Options} {d : Dialect} {source : String}

theorem leaves_fileBound (t : FileTree) :
    Leaves t (liftM (Machine.host launch).fileBound : Step (StateM Machine) Nat)
      (.ok t.listing.length) t :=
  .lift fun machine h => ⟨machine, by rw [← h]; rfl, h⟩

/-- **A text that compiles** is compiled, and no file changes: only the
libraries are read. -/
theorem leaves_compile {unit : CompiledUnit}
    (h : compileUnit (t.loader options.libraryDirectory) d .program source = .ok unit) :
    Leaves t (compile (Machine.host launch) coloured options d source) (.ok unit) t := by
  have hfound : diagnose (t.loader options.libraryDirectory) d .program ⟨options.input, source⟩ =
      .ok unit := by
    unfold diagnose
    rw [h]
    rfl
  unfold compile
  refine .optional (leaves_complain t _) (.optional (leaves_complain t _) ?_)
  refine (leaves_fileBound t).bind (.bind (.lift (diagnose_run t _ d .program _)) ?_)
  rw [hfound]
  exact .bind (.forM fun diagnostic _ => leaves_complain t _) (.pure t unit)

/-- **A text that does not compile** ends the run, and no file changes. The
error is shown before the run ends. -/
theorem leaves_compile_error {e : CompileError}
    (h : compileUnit (t.loader options.libraryDirectory) d .program source = .error e) :
    Leaves t (compile (Machine.host launch) coloured options d source) (.error 1) t := by
  obtain ⟨diagnostic, hfound⟩ : ∃ diagnostic, diagnose (t.loader options.libraryDirectory) d
      .program ⟨options.input, source⟩ = .error diagnostic := ⟨_, diagnose_of_error h⟩
  unfold compile
  refine .optional (leaves_complain t _) (.optional (leaves_complain t _) ?_)
  refine (leaves_fileBound t).bind (.bind (.lift (diagnose_run t _ d .program _)) ?_)
  rw [hfound]
  exact .bind (leaves_complain t _) (.bind (leaves_complain t _) (.throw t 1))

/-! ## Writing -/

theorem leaves_createDirectories (t : FileTree) (path : String) :
    Leaves t (ExceptT.mk ((Machine.host launch).createDirectories path))
      (Machine.told (t.createDirectories path).1) (t.createDirectories path).2 := by
  rintro machine rfl
  exact ⟨{ machine with tree := (machine.tree.createDirectories path).2 }, rfl, rfl⟩

theorem leaves_writeText {path text : String} (h : t.writeText path text = .ok t') :
    Leaves t (ExceptT.mk ((Machine.host launch).writeText path text)) (.ok ()) t' := by
  rintro machine rfl
  refine ⟨{ machine with tree := t' }, ?_, rfl⟩
  unfold Machine.host
  rw [ExceptT.run_mk, StateT.run_modifyGet, h]
  rfl

theorem leaves_writeText_error {path text : String} {e : FileError}
    (h : t.writeText path text = .error e) :
    Leaves t (ExceptT.mk ((Machine.host launch).writeText path text)) (.error e.message) t := by
  rintro machine rfl
  refine ⟨machine, ?_, rfl⟩
  unfold Machine.host
  rw [ExceptT.run_mk, StateT.run_modifyGet, h]
  rfl

/-- **Headers are written like other files**, one after the other, before the
`rest`. By induction on the headers. -/
theorem leaves_writeHeaders (directory : String) (headers : List Header)
    (rest : List (String × String)) (t : FileTree) :
    (∃ t₁, Leaves t (headers.forM fun header => ExceptT.mk ((Machine.host launch).writeText
        (Path.join directory (headerFile header.name)) header.code)) (.ok ⟨⟩) t₁ ∧
      t.writeFiles directory (headers.map Header.artifact ++ rest) = t₁.writeFiles directory rest) ∨
    ∃ e t₁, Leaves t (headers.forM fun header => ExceptT.mk ((Machine.host launch).writeText
        (Path.join directory (headerFile header.name)) header.code)) (.error e.message) t₁ ∧
      t.writeFiles directory (headers.map Header.artifact ++ rest) = .error e := by
  induction headers generalizing t with
  | nil => exact .inl ⟨t, .pure t _, rfl⟩
  | cons header headers ih =>
    rw [List.map_cons, List.cons_append, Header.artifact, FileTree.writeFiles]
    cases hwrite : t.writeText (Path.join directory (headerFile header.name)) header.code with
    | error e => exact .inr ⟨e, t, .bind_error (leaves_writeText_error hwrite), rfl⟩
    | ok t₁ =>
      obtain ⟨t₂, hlater, hfiles⟩ | ⟨e, t₂, hlater, hfiles⟩ := ih t₁
      · exact .inl ⟨t₂, (leaves_writeText hwrite).bind hlater, hfiles⟩
      · exact .inr ⟨e, t₂, (leaves_writeText hwrite).bind hlater, hfiles⟩

/-- **A unit is written like other files**, and the run goes on exactly if
they all can be written. First its directory is made, then the headers are
written, and the program last. -/
theorem leaves_write (t : FileTree) (directory stem : String) (unit : CompiledUnit) :
    (∃ t', t.store directory (unit.artifacts stem) = .ok t' ∧
      Leaves t (write (Machine.host launch) directory stem unit)
        (.ok (Path.join directory (outputFile stem))) t') ∨
    ∃ e t', t.store directory (unit.artifacts stem) = .error e ∧
      Leaves t (write (Machine.host launch) directory stem unit) (.error e.message) t' := by
  have hmade : Leaves t (ExceptT.mk ((Machine.host launch).createDirectories directory))
      (Machine.told (t.createDirectories directory).1) (t.createDirectories directory).2 :=
    leaves_createDirectories t directory
  unfold write FileTree.store
  obtain ⟨result, t₁, hcreate⟩ : ∃ result t₁, t.createDirectories directory = (result, t₁) :=
    ⟨_, _, rfl⟩
  rw [hcreate] at hmade ⊢
  cases result with
  | error e => exact .inr ⟨e, t₁, rfl, .bind_error hmade⟩
  | ok made =>
    dsimp only
    obtain ⟨t₂, hheaders, hfiles⟩ | ⟨e, t₂, hheaders, hfiles⟩ :=
      leaves_writeHeaders directory unit.libraries [(outputFile stem, unit.code)] t₁
    · rw [CompiledUnit.artifacts, hfiles, FileTree.writeFiles]
      cases hwrite : t₂.writeText (Path.join directory (outputFile stem)) unit.code with
      | error e => exact .inr ⟨e, t₂, rfl,
          .bind hmade (.bind hheaders (.bind_error (leaves_writeText_error hwrite)))⟩
      | ok t' => exact .inl ⟨t', rfl,
          .bind hmade (.bind hheaders (.bind (leaves_writeText hwrite) (.pure t' _)))⟩
    · exact .inr ⟨e, t₂, hfiles, .bind hmade (.bind_error hheaders)⟩

end Command

end MapleCompiler
