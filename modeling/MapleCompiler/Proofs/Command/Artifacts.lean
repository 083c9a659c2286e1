import MapleCompiler.Proofs.Command.Steps
import MapleCompiler.Proofs.Emission.Includes
import MapleCompiler.Proofs.Library.Confinement

/-!
# What a run of the command line leaves behind

A run that is not to build the program has two kinds of ends. If the input is refused,
because of its extension, because it cannot be read or because it does not compile
(`Options.Refused`), the files of the machine are what they were. If it compiles
(`Options.Compiles`), the program and the headers of its libraries are written to the
output directory, and the run is a success exactly if they all could be written.

They are then all there. Nothing is written twice, because headers are called by the names
of different libraries and a program is called by another ending than a header
(`CompiledUnit.nodup_artifacts`); and no name leads out of the output directory
(`CompiledUnit.isPlain_of_mem_artifacts`). They also suffice: what a file of them includes
from its own directory is one of the headers (`CompiledUnit.included_of_artifact`), since the
libraries of a unit are closed under imports.

Names are not enough to say where a text goes, though. An artifact is written through a link
that stands at its name, so it may go to another file or to the place of another artifact
(`Command.linkedMachine`). The statement is for output directories in which the places of
the artifacts are places of their own (`FileTree.HasRoomFor`); that a refused input changes
nothing needs no condition.
-/

namespace MapleCompiler

/-! ## Inputs -/

namespace Options

/-- Where generated files go. -/
def directory (options : Options) : String :=
  options.outputDirectory?.getD (Path.directory options.input)

/-- **An input compiles to a unit**, with the libraries of a tree. -/
def Compiles (options : Options) (t : FileTree) (unit : CompiledUnit) : Prop :=
  ∃ d source, inputDialect? options.input = some d ∧ t.readText options.input = .ok source ∧
    compileUnit (t.loader options.libraryDirectory) d .program source = .ok unit

/-- **An input is refused**: it has no extension of a dialect, it cannot be
read, or it does not compile. -/
def Refused (options : Options) (t : FileTree) : Prop :=
  inputDialect? options.input = none ∨ (∃ e, t.readText options.input = .error e) ∨
    ∃ d source e, inputDialect? options.input = some d ∧ t.readText options.input = .ok source ∧
      compileUnit (t.loader options.libraryDirectory) d .program source = .error e

end Options

theorem exists_stem_of_inputDialect? {input : String} {d : Dialect}
    (h : inputDialect? input = some d) :
    ∃ stem, Path.stem? input = some stem ∧ '/' ∉ stem.toList := by
  unfold inputDialect? at h
  split at h
  · next ext hext => exact Path.exists_stem_of_extension? hext
  · cases h

/-! ## Artifacts -/

theorem headerFile_injective : Function.Injective headerFile := fun a b h => by
  have hchars := congrArg String.toList h
  rw [headerFile, headerFile, String.toList_append, String.toList_append] at hchars
  exact String.toList_inj.mp (List.append_cancel_right hchars)

/-- A header never has the name of a program, since the two names end
differently. -/
theorem headerFile_ne_outputFile (name stem : String) : headerFile name ≠ outputFile stem := by
  intro h
  have hchars := congrArg String.toList h
  rw [headerFile, outputFile, String.toList_append, String.toList_append] at hchars
  exact absurd (List.append_inj_right' hchars (by simp)) (by decide)

namespace CompiledUnit

variable {loader : Loader Id} {d : Dialect} {mode : Cpp.Mode} {source stem : String}
  {unit : CompiledUnit}

theorem map_fst_artifact (headers : List Header) :
    (headers.map Header.artifact).map Prod.fst = (headers.map Header.name).map headerFile := by
  rw [List.map_map, List.map_map]
  rfl

/-- **No artifact has the name of another one**: no library is listed twice,
and the generated program is no header. -/
theorem nodup_artifacts (h : compileUnit loader d mode source = .ok unit) (stem : String) :
    ((unit.artifacts stem).map Prod.fst).Nodup := by
  obtain ⟨p, warnings, headers, -, hresolve, rfl⟩ := compileUnit_eq_ok.mp h
  have hnames := (Loader.resolve_extends hresolve).listed.nodup
  rw [artifacts, List.map_append, map_fst_artifact]
  refine List.Nodup.append (hnames.map headerFile_injective) (List.nodup_singleton _) ?_
  rw [List.map_singleton, List.disjoint_singleton]
  intro hmem
  obtain ⟨name, -, heq⟩ := List.mem_map.mp hmem
  exact headerFile_ne_outputFile name stem heq

/-- **An artifact is an entry of its directory**: its name has no slash and is
no step such as a point. -/
theorem isPlain_of_mem_artifacts (h : compileUnit loader d mode source = .ok unit)
    (hstem : '/' ∉ stem.toList) : ∀ file ∈ unit.artifacts stem, Path.IsPlain file.1 := by
  rw [artifacts, List.forall_mem_append, List.forall_mem_singleton]
  constructor
  · intro file hfile
    obtain ⟨header, hheader, rfl⟩ := List.mem_map.mp hfile
    exact (isWord_of_mem_libraries h hheader).isPlain_headerFile
  · refine .append ?_ (by decide) (by decide)
    rw [String.toList_append, List.mem_append, not_or]
    exact ⟨hstem, by decide⟩

/-- Different artifacts have different paths, as a plain name is the last
component of its path. -/
theorem nodup_paths (h : compileUnit loader d mode source = .ok unit) (hstem : '/' ∉ stem.toList)
    (directory : String) :
    ((unit.artifacts stem).map fun file => Path.join directory file.1).Nodup := by
  have hplain := isPlain_of_mem_artifacts h hstem
  have hnames := nodup_artifacts h stem
  rw [List.Nodup, List.pairwise_map] at hnames ⊢
  refine hnames.imp_of_mem fun {a b} ha hb hne heq => hne ?_
  have hcomponents := congrArg Path.components heq
  rw [Path.components_join (hplain a ha), Path.components_join (hplain b hb)] at hcomponents
  exact List.singleton_inj.mp (List.append_cancel_left hcomponents)

/-- **What an artifact includes from its directory is a header that is written
with it.** This holds of the program and of the headers, which may include
others. -/
theorem included_of_artifact (h : compileUnit loader d mode source = .ok unit)
    {file : String × String} (hfile : file ∈ unit.artifacts stem) {included : String}
    (hline : Cpp.includeLine included ∈ Lines.ofText file.2) :
    ∃ header ∈ unit.libraries, included = headerFile header.name := by
  obtain ⟨p, warnings, headers, hread, hresolve, rfl⟩ := compileUnit_eq_ok.mp h
  have hextends := Loader.resolve_extends hresolve
  -- it is enough that the library is on the list
  have hlisted {name : String} (hname : name ∈ headers.map Header.name)
      (heq : included = headerFile name) :
      ∃ header ∈ headers, included = headerFile header.name := by
    obtain ⟨header, hheader, rfl⟩ := List.mem_map.mp hname
    exact ⟨header, hheader, heq⟩
  obtain hfile | hfile := List.mem_append.mp hfile
  · obtain ⟨header, hheader, rfl⟩ := List.mem_map.mp hfile
    obtain ⟨before, after, rfl⟩ := List.append_of_mem hheader
    obtain ⟨unit, hreads, hcode, -⟩ := hextends.listed.compiled header hheader
    change Cpp.includeLine included ∈ Lines.ofText header.code at hline
    rw [hcode] at hline
    obtain ⟨name, hname, rfl⟩ :=
      Program.exists_import_of_include (Program.accepted_of_ofText hreads.2.2) hline
    have hbefore := hextends.listed.ordered before header after rfl name
      ⟨header.source, unit, hreads, hname⟩
    refine hlisted ?_ rfl
    rw [List.map_append]
    exact List.mem_append_left _ hbefore
  · obtain rfl := List.mem_singleton.mp hfile
    change Cpp.includeLine included ∈ Lines.ofText (p.cpp mode) at hline
    obtain ⟨name, hname, rfl⟩ :=
      Program.exists_import_of_include (Program.accepted_of_ofText hread) hline
    exact hlisted (hextends.covers name hname) rfl

end CompiledUnit

/-! ## Runs -/

namespace Command

variable {t t' : FileTree} {launch : Machine.Launcher} {coloured : Bool} {options : Options}
  {stem : String} {unit : CompiledUnit}

theorem leaves_readText (t : FileTree) (path : String) :
    Leaves t (liftM ((Machine.host launch).readText path) :
        Step (StateM Machine) (Except String String))
      (.ok (Machine.told (t.readText path))) t :=
  .lift fun machine h => ⟨machine, by rw [← h]; rfl, h⟩

/-- **A run with an input that is refused** fails, and no file changes. By the
question at which it is refused. -/
theorem leaves_compileInput_refused (h : options.Refused t) :
    Leaves t (compileInput (Machine.host launch) coloured options) (.error 1) t := by
  unfold compileInput
  cases hdialect : inputDialect? options.input with
  | none => exact leaves_fail t coloured _
  | some d =>
    obtain ⟨stem, hstem, -⟩ := exists_stem_of_inputDialect? hdialect
    rw [hstem]
    refine (leaves_readText t options.input).bind ?_
    obtain hnone | ⟨e, hread⟩ | ⟨_, source, e, hsome, hread, hunit⟩ := h
    · cases hdialect.symm.trans hnone
    · rw [hread]
      exact leaves_fail t coloured _
    · cases hdialect.symm.trans hsome
      rw [hread]
      exact .bind_error (leaves_compile_error hunit)

/-- **A run with an input that compiles** writes the artifacts, and succeeds
exactly if they can be written. It is one that does not run the program
afterwards. -/
theorem leaves_compileInput (hrun : options.run = false) (h : options.Compiles t unit)
    (hstem : Path.stem? options.input = some stem) :
    (∃ t', t.store options.directory (unit.artifacts stem) = .ok t' ∧
      Leaves t (compileInput (Machine.host launch) coloured options) (.ok ()) t') ∨
    ∃ e t', t.store options.directory (unit.artifacts stem) = .error e ∧
      Leaves t (compileInput (Machine.host launch) coloured options) (.error 1) t' := by
  obtain ⟨d, source, hdialect, hread, hunit⟩ := h
  unfold compileInput
  rw [hdialect, hstem]
  have hcompiled :
      Leaves t (compile (Machine.host launch) coloured options d source) (.ok unit) t :=
    leaves_compile hunit
  obtain ⟨t', hstore, hwrite⟩ | ⟨e, t', hstore, hwrite⟩ :=
    leaves_write t options.directory stem unit
  · refine .inl ⟨t', hstore, (leaves_readText t options.input).bind ?_⟩
    rw [hread]
    refine hcompiled.bind (.bind (.lift hwrite) ?_)
    refine (leaves_announce t' coloured _ _).bind ?_
    refine .bind (.forM fun header _ => leaves_announce t' coloured _ _) ?_
    rw [hrun]
    exact .pure t' ()
  · refine .inr ⟨e, t', hstore, (leaves_readText t options.input).bind ?_⟩
    rw [hread]
    exact hcompiled.bind (.bind (.lift hwrite) (leaves_fail t' coloured _))

/-- The exit code and the files after a run that is to compile something: they
are those that the step leaves. -/
theorem run_of_leaves {arguments : List String} {machine after : Machine} {code : Nat}
    {r : Except Nat Unit} (hrequest : Request.ofArguments arguments = .compile options)
    (hleaves : Leaves machine.tree (compileInput (Machine.host launch) coloured options) r t')
    (h : (run (Machine.host launch) coloured arguments).run machine = (code, after)) :
    (r = .ok () → code = 0) ∧ (∀ e, r = .error e → code = e) ∧ after.tree = t' := by
  obtain ⟨ended, hrun, hended⟩ := hleaves machine rfl
  unfold run at h
  rw [hrequest] at h
  dsimp only at h
  rw [StateT.run_bind, hrun] at h
  cases r with
  | ok done =>
    obtain ⟨rfl, rfl⟩ := Prod.mk.inj h
    exact ⟨fun _ => rfl, nofun, hended⟩
  | error e =>
    obtain ⟨rfl, rfl⟩ := Prod.mk.inj h
    exact ⟨nofun, fun _ he => Except.error.inj he, hended⟩

/-- The two ends of a run whose input compiles: all artifacts are stored, or
storing them fails and so does the run. -/
theorem run_of_compiles {arguments : List String} {machine after : Machine} {code : Nat}
    (hrequest : Request.ofArguments arguments = .compile options) (hrun : options.run = false)
    (hcompiles : options.Compiles machine.tree unit)
    (hstem : Path.stem? options.input = some stem)
    (h : (run (Machine.host launch) coloured arguments).run machine = (code, after)) :
    code = 0 ∧ machine.tree.store options.directory (unit.artifacts stem) = .ok after.tree ∨
      code ≠ 0 ∧ ∃ e, machine.tree.store options.directory (unit.artifacts stem) = .error e := by
  obtain ⟨t, hstore, hleaves⟩ | ⟨e, t, hstore, hleaves⟩ :=
    leaves_compileInput hrun hcompiles hstem
  · obtain ⟨hcode, -, rfl⟩ := run_of_leaves hrequest hleaves h
    exact .inl ⟨hcode rfl, hstore⟩
  · obtain ⟨-, hcode, -⟩ := run_of_leaves hrequest hleaves h
    refine .inr ⟨?_, e, hstore⟩
    rw [hcode 1 rfl]
    exact Nat.one_ne_zero

/-- **What a run leaves behind** that is not to build the program, whatever
launching a program would do. If the input is refused, the run fails and the
files are what they were. If it compiles, the run succeeds exactly if its
artifacts can be written. Then, if there is room for them, each of them is
right in the output directory, under a path of its own and with its own text,
and nothing else has changed but that there may be further directories; and
what one of them includes from there is one of the headers. -/
theorem run_leaves_artifacts (launch : Machine.Launcher) (machine : Machine) (coloured : Bool)
    (arguments : List String) (options : Options)
    (hrequest : Request.ofArguments arguments = .compile options) (hrun : options.run = false)
    (code : Nat) (after : Machine)
    (h : (run (Machine.host launch) coloured arguments).run machine = (code, after)) :
    (options.Refused machine.tree → code ≠ 0 ∧ after.tree = machine.tree) ∧
    ∀ unit, options.Compiles machine.tree unit →
      ∃ stem, Path.stem? options.input = some stem ∧
        (code = 0 ↔ ∃ t, machine.tree.store options.directory (unit.artifacts stem) = .ok t) ∧
        (code = 0 → machine.tree.HasRoomFor options.directory (unit.artifacts stem) →
          ∃ place, machine.tree.Receives options.directory (unit.artifacts stem) place
            after.tree) ∧
        ((unit.artifacts stem).map fun file => Path.join options.directory file.1).Nodup ∧
        ∀ file ∈ unit.artifacts stem, ∀ included,
          Cpp.includeLine included ∈ Lines.ofText file.2 →
            ∃ header ∈ unit.libraries, included = headerFile header.name := by
  refine ⟨fun hrefused => ?_, fun unit hcompiles => ?_⟩
  · obtain ⟨-, hcode, htree⟩ := run_of_leaves hrequest (leaves_compileInput_refused hrefused) h
    rw [hcode 1 rfl]
    exact ⟨Nat.one_ne_zero, htree⟩
  obtain ⟨d, source, hdialect, -, hunit⟩ := id hcompiles
  obtain ⟨stem, hstem, hslash⟩ := exists_stem_of_inputDialect? hdialect
  have hends := run_of_compiles hrequest hrun hcompiles hstem h
  refine ⟨stem, hstem, ⟨fun hzero => ?_, ?_⟩, fun hzero hroom => ?_,
    unit.nodup_paths hunit hslash _,
    fun file hfile included hline => unit.included_of_artifact hunit hfile hline⟩
  · obtain ⟨-, hstore⟩ | ⟨hcode, -⟩ := hends
    · exact ⟨_, hstore⟩
    · exact absurd hzero hcode
  · rintro ⟨t, hstore⟩
    obtain ⟨hcode, -⟩ | ⟨-, e, herror⟩ := hends
    · exact hcode
    · cases hstore.symm.trans herror
  · obtain ⟨-, hstore⟩ | ⟨hcode, -⟩ := hends
    · exact FileTree.store_eq_ok (unit.isPlain_of_mem_artifacts hunit hslash)
        (unit.nodup_artifacts hunit stem)
        (List.append_ne_nil_of_right_ne_nil _ (List.cons_ne_nil _ _)) hroom hstore
    · exact absurd hzero hcode

/-! ## A run with room, and one without -/

/-- A machine that launches nothing. -/
def launchNothing : Machine.Launcher := fun _ _ => return .error FileError.notFound.message

/-- The files of a directory `w` with a program that imports a library, and
one whose library is missing, beside `others`. -/
def importingMachine (others : List Record) : Machine :=
  .ofTree ⟨[⟨[["w"]], .directory passableMode⟩, ⟨[["w", "lib"]], .directory passableMode⟩,
    ⟨[["w", "a.mpl"]], .file (.text "lib @m\n@m::f : :") fileMode⟩,
    ⟨[["w", "b.mpl"]], .file (.text "lib @n") fileMode⟩,
    ⟨[["w", "lib", "m.mal"]], .file (.text "init @m\nfnc empty f : :\nend") fileMode⟩] ++ others,
    sealedMode, ["w"]⟩ []

/-- The options of a run that writes to another directory. -/
def importingOptions (input : String) : Options :=
  ⟨input, some "out", "lib", false, "g++", false, false⟩

theorem eq_ok_of_toOption {ε α : Type} {x : Except ε α} {a : α} (h : x.toOption = some a) :
    x = .ok a := by
  cases x with
  | error e => cases h
  | ok b => exact congrArg Except.ok (Option.some.inj h)

theorem importingOptions_compiles (others : List Record) (names : List String)
    (hread : (importingMachine others).tree.readText "a.mpl" = .ok "lib @m\n@m::f : :")
    (hnames : (compileUnit ((importingMachine others).tree.loader "lib") .maple .program
      "lib @m\n@m::f : :").toOption.map (fun unit => unit.libraries.map Header.name) = some names) :
    ∃ unit, (importingOptions "a.mpl").Compiles (importingMachine others).tree unit ∧
      compileUnit ((importingMachine others).tree.loader "lib") .maple .program
        "lib @m\n@m::f : :" = .ok unit ∧ unit.libraries.map Header.name = names := by
  cases hunit : compileUnit ((importingMachine others).tree.loader "lib") .maple .program
      "lib @m\n@m::f : :" with
  | error e =>
    rw [hunit] at hnames
    cases hnames
  | ok unit =>
    rw [hunit] at hnames
    exact ⟨unit, ⟨.maple, _, by decide +kernel, hread, hunit⟩, rfl, Option.some.inj hnames⟩

theorem importingOptions_refused :
    (importingOptions "b.mpl").Refused (importingMachine []).tree := by
  have hread : (importingMachine []).tree.readText "b.mpl" = .ok "lib @n" := by decide +kernel
  have hnone : (compileUnit ((importingMachine []).tree.loader "lib") .maple .program
      "lib @n").toOption = none := by decide +kernel
  cases hunit : compileUnit ((importingMachine []).tree.loader "lib") .maple .program "lib @n" with
  | ok unit =>
    rw [hunit] at hnone
    cases hnone
  | error e => exact .inr (.inr ⟨.maple, _, e, by decide +kernel, hread, hunit⟩)

theorem importing_artifacts {unit : CompiledUnit} (h : unit.libraries.map Header.name = ["m"]) :
    (unit.artifacts "a").map Prod.fst = ["m.hpp", "a_Maple.cpp"] := by
  rw [CompiledUnit.artifacts, List.map_append, CompiledUnit.map_fst_artifact, h]
  show [headerFile "m", outputFile "a"] = ["m.hpp", "a_Maple.cpp"]
  decide

theorem importingOptions_hasRoom {unit : CompiledUnit}
    (h : unit.libraries.map Header.name = ["m"]) :
    (importingMachine []).tree.HasRoomFor "out" (unit.artifacts "a") := by
  have hfolder : (((importingMachine []).tree.createDirectories "out").2.folder "out") =
      .ok ["w", "out"] := by decide +kernel
  have hown : ∀ name ∈ ["m.hpp", "a_Maple.cpp"],
      ((importingMachine []).tree.get? (["w", "out"] ++ [name])).all Entry.holdsText = true ∧
        (importingMachine []).tree.HasOneName (["w", "out"] ++ [name]) := by decide +kernel
  intro place hplace file hfile
  obtain rfl := Except.ok.inj (hfolder.symm.trans hplace)
  obtain ⟨hholds, hname⟩ := hown file.1 (importing_artifacts h ▸ List.mem_map_of_mem hfile)
  exact ⟨hholds, hname⟩

/-- A program is compiled to a directory that is made for it, and one is
refused. -/
theorem run_leaves_artifacts_library :
    (∃ unit place, (importingOptions "a.mpl").Compiles (importingMachine []).tree unit ∧
      unit.libraries.map Header.name = ["m"] ∧
      (importingMachine []).tree.HasRoomFor "out" (unit.artifacts "a") ∧
      (importingMachine []).tree.Receives "out" (unit.artifacts "a") place
        ((run (Machine.host launchNothing) false ["a.mpl", "-o", "out"]).run
          (importingMachine [])).2.tree) ∧
    ((run (Machine.host launchNothing) false ["b.mpl", "-o", "out"]).run
      (importingMachine [])).1 ≠ 0 ∧
    ((run (Machine.host launchNothing) false ["b.mpl", "-o", "out"]).run
      (importingMachine [])).2.tree = (importingMachine []).tree := by
  have hrequest : Request.ofArguments ["a.mpl", "-o", "out"] =
      .compile (importingOptions "a.mpl") := by decide +kernel
  have hrequest' : Request.ofArguments ["b.mpl", "-o", "out"] =
      .compile (importingOptions "b.mpl") := by decide +kernel
  have hcode : ((run (Machine.host launchNothing) false ["a.mpl", "-o", "out"]).run
      (importingMachine [])).1 = 0 := by decide +kernel
  have ha : some "a" = Path.stem? "a.mpl" := by decide +kernel
  have hrun := run_leaves_artifacts launchNothing (importingMachine []) false _ _ hrequest rfl _ _
    (Prod.eta _).symm
  have hrun' := run_leaves_artifacts launchNothing (importingMachine []) false _ _ hrequest' rfl _ _
    (Prod.eta _).symm
  obtain ⟨unit, hcompiles, -, hnames⟩ :=
    importingOptions_compiles [] ["m"] (by decide +kernel) (by decide +kernel)
  have hroom := importingOptions_hasRoom hnames
  obtain ⟨stem, hstem, -, hreceives, -⟩ := hrun.2 unit hcompiles
  obtain rfl : "a" = stem := Option.some.inj (ha.trans hstem)
  obtain ⟨place, hplace⟩ := hreceives hcode hroom
  exact ⟨⟨unit, place, hcompiles, hnames, hroom, hplace⟩, hrun'.1 importingOptions_refused⟩

/-- An output directory in which links stand, one at the name of the header,
which leads to the name of the program, and one there, which leads to a file
of another directory. -/
def linkedRecords : List Record :=
  [⟨[["w", "out"]], .directory passableMode⟩, ⟨[["w", "out", "m.hpp"]], .link "a_Maple.cpp"⟩,
    ⟨[["w", "out", "a_Maple.cpp"]], .link "../precious.txt"⟩,
    ⟨[["w", "precious.txt"]], .file (.text "precious") fileMode⟩]

/-- A machine with links in its output directory. -/
def linkedMachine : Machine := importingMachine linkedRecords

/-- **Links lead artifacts elsewhere.** The run succeeds. The text of another
file is gone, and so is the header, since the program was written to the same
place after it. -/
theorem run_follows_links :
    ∃ unit after, (importingOptions "a.mpl").Compiles linkedMachine.tree unit ∧
      unit.libraries.map Header.name = ["m"] ∧
      (run (Machine.host launchNothing) false ["a.mpl", "-o", "out"]).run linkedMachine =
        (0, after) ∧
      linkedMachine.tree.readText "precious.txt" = .ok "precious" ∧
      after.tree.readText "precious.txt" = .ok unit.code ∧
      (∀ header ∈ unit.libraries,
        after.tree.readText (Path.join "out" (headerFile header.name)) ≠ .ok header.code) ∧
      ¬ ∃ place, linkedMachine.tree.Receives "out" (unit.artifacts "a") place after.tree := by
  have hcode : ((run (Machine.host launchNothing) false ["a.mpl", "-o", "out"]).run
      linkedMachine).1 = 0 := by decide +kernel
  have hprecious : (((run (Machine.host launchNothing) false ["a.mpl", "-o", "out"]).run
      linkedMachine).2.tree.readText "precious.txt").toOption =
      (compileUnit ((importingMachine linkedRecords).tree.loader "lib") .maple .program
        "lib @m\n@m::f : :").toOption.map CompiledUnit.code := by decide +kernel
  have hheader : (((run (Machine.host launchNothing) false ["a.mpl", "-o", "out"]).run
      linkedMachine).2.tree.readText "out/m.hpp").toOption =
      (compileUnit ((importingMachine linkedRecords).tree.loader "lib") .maple .program
        "lib @m\n@m::f : :").toOption.map CompiledUnit.code := by decide +kernel
  have hdiffer : (compileUnit ((importingMachine linkedRecords).tree.loader "lib") .maple .program
      "lib @m\n@m::f : :").toOption.map (fun unit => unit.libraries.all (·.code != unit.code)) =
        some true := by decide +kernel
  have hother : ((run (Machine.host launchNothing) false ["a.mpl", "-o", "out"]).run
      linkedMachine).2.tree.get? ["w", "precious.txt"] ≠
        some (.file (.text "precious") fileMode) := by decide +kernel
  have hbefore : linkedMachine.tree.get? ["w", "precious.txt"] =
      some (.file (.text "precious") fileMode) := by decide +kernel
  have hread : linkedMachine.tree.readText "precious.txt" = .ok "precious" := by decide +kernel
  have hpath : Path.join "out" (headerFile "m") = "out/m.hpp" := by decide +kernel
  obtain ⟨unit, hcompiles, hunit, hnames⟩ :=
    importingOptions_compiles linkedRecords ["m"] (by decide +kernel) (by decide +kernel)
  rw [hunit] at hprecious hheader hdiffer
  generalize hrun : (run (Machine.host launchNothing) false ["a.mpl", "-o", "out"]).run
    linkedMachine = ended at hcode hprecious hheader hother
  obtain ⟨code, after⟩ := ended
  obtain rfl : code = 0 := hcode
  refine ⟨unit, after, hcompiles, hnames, rfl, hread, eq_ok_of_toOption hprecious,
    fun header hmem hheld => ?_, ?_⟩
  · have hname : header.name = "m" := List.mem_singleton.mp (hnames ▸ List.mem_map_of_mem hmem)
    rw [hname, hpath, eq_ok_of_toOption hheader] at hheld
    have hcode := List.all_eq_true.mp (Option.some.inj hdiffer) header hmem
    exact bne_iff_ne.mp hcode (Except.ok.inj hheld).symm
  · -- the other file is none of those that may change
    rintro ⟨place, -, -, hkeeps⟩
    refine hother ((hkeeps.file _ (fun hmem => ?_) _ _).mpr hbefore)
    obtain ⟨file, hmember, heq⟩ := List.mem_map.mp hmem
    have hfile : file.1 = "precious.txt" := by
      have hlast := congrArg List.getLast? heq
      rw [List.getLast?_concat] at hlast
      exact Option.some.inj hlast
    have hname := List.mem_map_of_mem (f := Prod.fst) hmember
    rw [hfile, importing_artifacts hnames] at hname
    exact absurd hname (by decide)

end Command

end MapleCompiler
