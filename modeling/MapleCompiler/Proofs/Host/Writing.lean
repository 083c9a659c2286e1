import MapleCompiler.Proofs.Host.Paths

/-!
# What writing to a tree changes

Two operations change the files of a tree for the compiler: making directories, and
writing a text to a file. Here it is said once what each of them leaves alone
(`FileTree.Keeps`): all directories and links stay, and so do all files but those at the
places that are written to.

Which place that is, needs a condition. A text goes where its path leads and not where
its name stands: through a link it goes elsewhere, a device does not keep it, and if a
file has two names it appears under the other one too. `FileTree.IsOwn` says of a place
that nothing of this is the case there. It is a condition on the tree before anything is
written; writing to one place does not take it from another.

A walk goes through directories and links only, so a path that leads somewhere goes on
leading there (`FileTree.Keeps.walk`). Texts that are written one after the other to files
of one directory therefore go to entries of the same directory, and if their names differ
none of them is lost.

Main statement: `FileTree.store_eq_ok`, for a directory that is made and files that are
written to it.
-/

namespace MapleCompiler

/-- Whether an entry holds what is written under its name. A link leaves that
to what it leads to, and a device holds nothing. -/
def Entry.holdsText : Entry → Bool
  | link _ => false
  | file .device _ => false
  | _ => true

namespace FileTree

variable {t t₁ t' : FileTree} {place goal : Place} {places places' : List Place} {entry : Entry}

/-! ## Names -/

theorem isAt_iff {record : Record} : record.isAt place = true ↔ place ∈ record.places :=
  List.contains_iff_mem

theorem places_ite {c : Prop} [Decidable c] (record : Record) (entry : Entry) :
    (if c then { record with entry } else record).places = record.places := by
  split <;> rfl

/-- **No other name** leads to what stands at a place. -/
def HasOneName (t : FileTree) (place : Place) : Prop :=
  ∀ record ∈ t.records, place ∈ record.places → ∀ name ∈ record.places, name = place

instance : Decidable (t.HasOneName place) :=
  inferInstanceAs (Decidable (∀ record ∈ t.records, place ∈ record.places →
    ∀ name ∈ record.places, name = place))

/-- **A place of its own**: what is written there is there and nowhere
else. -/
structure IsOwn (t : FileTree) (place : Place) : Prop where
  holdsText : (t.get? place).all Entry.holdsText = true
  hasOneName : t.HasOneName place

theorem IsOwn.ne_link (h : t.IsOwn place) (target : String) :
    t.get? place ≠ some (.link target) := by
  intro hentry
  have := h.holdsText
  rw [hentry] at this
  cases this

theorem HasOneName.restrict (h : t.HasOneName goal) (keep : Place → Bool) :
    (t.restrict keep).HasOneName goal := by
  intro record hrecord hgoal name hname
  obtain ⟨old, hold, rfl⟩ := List.mem_map.mp (List.mem_filter.mp hrecord).1
  exact h old hold (List.mem_filter.mp hgoal).1 name (List.mem_filter.mp hname).1

theorem HasOneName.put (h : t.HasOneName goal) (place : Place) (entry : Entry) :
    (t.put place entry).HasOneName goal := by
  intro record hrecord hgoal name hname
  obtain rfl | hrecord := List.mem_cons.mp hrecord
  · exact (List.mem_singleton.mp hname).trans (List.mem_singleton.mp hgoal).symm
  · exact h.restrict _ record hrecord hgoal name hname

theorem HasOneName.alter (h : t.HasOneName goal) (place : Place) (entry : Entry) :
    (t.alter place entry).HasOneName goal := by
  intro record hrecord hgoal name hname
  obtain ⟨old, hold, rfl⟩ := List.mem_map.mp hrecord
  rw [places_ite] at hgoal hname
  exact h old hold hgoal name hname

/-! ## Entries -/

/-- What stands at a place whose name is kept is what stood there. The other
names of the same thing may be gone. -/
theorem get?_restrict {keep : Place → Bool} (h : keep goal = true) :
    get? (t.restrict keep) goal = t.get? goal := by
  let kept (record : Record) : Record := { record with places := record.places.filter keep }
  have hkept (record : Record) : (kept record).isAt goal = record.isAt goal := by
    rw [Bool.eq_iff_iff, isAt_iff, isAt_iff, List.mem_filter]
    exact and_iff_left h
  have hfind (records : List Record) :
      (((records.map kept).filter (!·.places.isEmpty)).find? (·.isAt goal)).map Record.entry =
        (records.find? (·.isAt goal)).map Record.entry := by
    induction records with
    | nil => rfl
    | cons record records ih =>
      rw [List.map_cons, List.find?_cons]
      cases hat : record.isAt goal with
      | true =>
        have hne : (kept record).places.isEmpty = false :=
          List.isEmpty_eq_false_iff_exists_mem.mpr ⟨goal, isAt_iff.mp ((hkept record).trans hat)⟩
        rw [List.filter_cons_of_pos (by rw [hne]; rfl), List.find?_cons, hkept, hat]
        rfl
      | false =>
        rw [← ih, List.filter_cons]
        split
        · rw [List.find?_cons, hkept, hat]
        · rfl
  unfold get?
  rw [restrict, hfind]

/-- What stands at a place after something was put somewhere: the new entry at
its place, and everywhere else what was there. -/
theorem get?_put (hplace : place ≠ []) (t : FileTree) (entry : Entry) (goal : Place) :
    get? (t.put place entry) goal = if goal = place then some entry else t.get? goal := by
  by_cases hgoal : goal = place
  · have hat : Record.isAt ⟨[place], entry⟩ place = true := isAt_iff.mpr List.mem_cons_self
    rw [if_pos hgoal, hgoal, get?, if_neg hplace, put, List.find?_cons, hat]
    rfl
  · have hkept : t.get? goal = get? (t.erase place) goal :=
      (get?_restrict (by simpa using hgoal)).symm
    have hat : Record.isAt ⟨[place], entry⟩ goal = false := by
      rw [← Bool.not_eq_true, isAt_iff, List.mem_singleton]
      exact hgoal
    rw [if_neg hgoal, hkept]
    unfold get? put
    rw [List.find?_cons, hat]
    rfl

/-- A record that is found after a change is the changed one. All its names
show the change. -/
theorem get?_alter (hgoal : goal ≠ []) (t : FileTree) (place : Place) (entry : Entry) :
    get? (t.alter place entry) goal =
      (t.records.find? (·.isAt goal)).map fun record =>
        if record.isAt place then entry else record.entry := by
  have hat (record : Record) : (if record.isAt place then { record with entry }
      else record).isAt goal = record.isAt goal :=
    congrArg (List.contains · goal) (places_ite record entry)
  rw [get?, if_neg hgoal, alter, List.find?_map, Option.map_map]
  simp only [Function.comp_def, hat, apply_ite Record.entry]

theorem get?_alter_self (hplace : place ≠ []) (entry : Entry) {old : Entry}
    (h : t.get? place = some old) :
    get? (t.alter place entry) place = some entry := by
  rw [get?, if_neg hplace] at h
  obtain ⟨record, hrecord, -⟩ := Option.map_eq_some_iff.mp h
  have hat : record.isAt place = true := List.find?_some (p := (Record.isAt · place)) hrecord
  rw [get?_alter hplace, hrecord, Option.map_some, if_pos hat]

/-- Another place is changed only if it is a name of the same thing, and here
there is no other name. -/
theorem get?_alter_of_ne (hsingle : t.HasOneName place) (h : goal ≠ place) :
    get? (t.alter place entry) goal = t.get? goal := by
  by_cases hroot : goal = []
  · rw [hroot]
    rfl
  rw [get?_alter hroot, get?, if_neg hroot]
  cases hrecord : t.records.find? (·.isAt goal) with
  | none => rfl
  | some record =>
    have hat : record.isAt goal = true := List.find?_some (p := (Record.isAt · goal)) hrecord
    rw [Option.map_some, Option.map_some, if_neg]
    intro hplace
    exact h (hsingle record (List.mem_of_find?_eq_some hrecord) (isAt_iff.mp hplace) goal
      (isAt_iff.mp hat))

/-! ## What is left alone -/

/-- **A tree with everything that another one has**, but for the files at some
places. It may have further directories. -/
structure Keeps (t : FileTree) (places : List Place) (t' : FileTree) : Prop where
  workingDirectory : t'.workingDirectory = t.workingDirectory
  directory : ∀ place mode, t.get? place = some (.directory mode) →
    t'.get? place = some (.directory mode)
  file : ∀ place, place ∉ places → ∀ content mode,
    t'.get? place = some (.file content mode) ↔ t.get? place = some (.file content mode)
  link : ∀ place target,
    t'.get? place = some (.link target) ↔ t.get? place = some (.link target)
  /-- Nothing gets a further name. -/
  hasOneName : ∀ place, t.HasOneName place → t'.HasOneName place

namespace Keeps

theorem refl (t : FileTree) : t.Keeps [] t :=
  ⟨rfl, fun _ _ => id, fun _ _ _ _ => Iff.rfl, fun _ _ => Iff.rfl, fun _ => id⟩

theorem trans (h : t.Keeps places t₁) (h' : t₁.Keeps places' t') :
    t.Keeps (places ++ places') t' where
  workingDirectory := h'.workingDirectory.trans h.workingDirectory
  directory place mode hentry := h'.directory place mode (h.directory place mode hentry)
  file place hplace content mode := by
    obtain ⟨hplace, hplace'⟩ := not_or.mp (mt List.mem_append.mpr hplace)
    exact (h'.file place hplace' content mode).trans (h.file place hplace content mode)
  link place target := (h'.link place target).trans (h.link place target)
  hasOneName place hplace := h'.hasOneName place (h.hasOneName place hplace)

/-- **A place of its own stays one**, if nothing was written there. No step
gives another name to a thing that has one. -/
theorem isOwn (h : t.Keeps places t') (hplace : place ∉ places) (hown : t.IsOwn place) :
    t'.IsOwn place := by
  refine ⟨?_, h.hasOneName place hown.hasOneName⟩
  have hholds := hown.holdsText
  cases hentry : t'.get? place with
  | none => rfl
  | some entry =>
    cases entry with
    | directory mode => rfl
    | link target =>
      rw [(h.link place target).mp hentry] at hholds
      exact hholds
    | file content mode =>
      rw [(h.file place hplace content mode).mp hentry] at hholds
      exact hholds

/-- A file that was put or changed at one place, where nothing or a file stood
before. All other places are as they were. -/
theorem of_file (hdirectory : t'.workingDirectory = t.workingDirectory)
    (hothers : ∀ goal, goal ≠ place → t'.get? goal = t.get? goal)
    (hbefore : t.get? place = none ∨ ∃ content mode, t.get? place = some (.file content mode))
    {content : Content} {mode : Mode} (hafter : t'.get? place = some (.file content mode))
    (hnames : ∀ place, t.HasOneName place → t'.HasOneName place) : t.Keeps [place] t' where
  workingDirectory := hdirectory
  directory goal mode hentry := by
    have hgoal : goal ≠ place := by
      rintro rfl
      obtain hbefore | ⟨_, _, hbefore⟩ := hbefore <;> cases hbefore.symm.trans hentry
    rw [hothers goal hgoal, hentry]
  file goal hgoal content mode := by
    rw [hothers goal fun heq => hgoal (List.mem_singleton.mpr heq)]
  link goal target := by
    by_cases hgoal : goal = place
    · subst hgoal
      rw [hafter]
      obtain hbefore | ⟨_, _, hbefore⟩ := hbefore <;> rw [hbefore]
      · exact iff_of_false nofun nofun
      · exact iff_of_false nofun nofun
    · rw [hothers goal hgoal]
  hasOneName := hnames

theorem put_directory (hplace : place ≠ []) {mode : Mode} (h : t.get? place = none) :
    t.Keeps [] (t.put place (.directory mode)) where
  workingDirectory := rfl
  directory goal mode hentry := by
    have hgoal : goal ≠ place := by
      rintro rfl
      cases h.symm.trans hentry
    rw [get?_put hplace, if_neg hgoal]
    exact hentry
  file goal _ content mode := by
    rw [get?_put hplace]
    split
    · next heq =>
      rw [heq, h]
      exact iff_of_false nofun nofun
    · exact Iff.rfl
  link goal target := by
    rw [get?_put hplace]
    split
    · next heq =>
      rw [heq, h]
      exact iff_of_false nofun nofun
    · exact Iff.rfl
  hasOneName goal hgoal := hgoal.put place _

/-- What a walk finds at its end, or at a link on its way, is there in the
other tree. By induction on the steps. -/
theorem walkBy (h : t.Keeps places t') {through : Bool} {steps : List String}
    {enter enter' : Place → List String → Except FileError Place}
    (henter : ∀ origin steps, enter origin steps = .ok goal → enter' origin steps = .ok goal)
    (hwalk : t.walkBy through enter place steps = .ok goal) :
    t'.walkBy through enter' place steps = .ok goal := by
  induction steps generalizing place with
  | nil =>
    rw [FileTree.walkBy] at hwalk ⊢
    split at hwalk
    · next target hentry =>
      rw [(h.link place target).mpr hentry]
      dsimp only
      split_ifs at hwalk ⊢
      · exact hwalk
      · exact henter _ _ hwalk
    · next hlink =>
      split
      · next target hentry => exact absurd ((h.link place target).mp hentry) (hlink target)
      · exact hwalk
  | cons step rest ih =>
    rw [FileTree.walkBy] at hwalk ⊢
    cases hentry : t.get? place with
    | none =>
      rw [hentry] at hwalk
      cases hwalk
    | some entry =>
      rw [hentry] at hwalk
      cases entry with
      | file content mode => cases hwalk
      | link target =>
        rw [(h.link place target).mpr hentry]
        dsimp only at hwalk ⊢
        split_ifs at hwalk ⊢
        exact henter _ _ hwalk
      | directory mode =>
        rw [h.directory place mode hentry]
        dsimp only at hwalk ⊢
        split_ifs at hwalk ⊢
        · exact ih hwalk
        · exact ih hwalk
        · exact ih hwalk

/-- **A walk that leads somewhere still leads there.** By induction on the
links that it may meet. -/
theorem walk (h : t.Keeps places t') {through : Bool} {limit : Nat} {steps : List String}
    (hwalk : t.walk through limit place steps = .ok goal) :
    t'.walk through limit place steps = .ok goal := by
  induction limit generalizing place steps with
  | zero => exact h.walkBy (fun _ _ hbad => by cases hbad) hwalk
  | succ limit ih => exact h.walkBy (fun _ _ => ih) hwalk

theorem origin (h : t.Keeps places t') (path : String) : t'.origin path = t.origin path := by
  rw [FileTree.origin, FileTree.origin, h.workingDirectory]

theorem folder (h : t.Keeps places t') {directory : String}
    (hfolder : t.folder directory = .ok place) : t'.folder directory = .ok place := by
  rw [FileTree.folder, h.origin]
  exact h.walk hfolder

theorem reach (h : t.Keeps places t') {path : String} (hreach : t.reach path = .ok place) :
    t'.reach path = .ok place := by
  unfold FileTree.reach at hreach ⊢
  split_ifs at hreach ⊢
  rw [h.origin]
  exact h.walk hreach

end Keeps

/-! ## Directories -/

/-- A directory is made only where nothing stands, so no file is touched. -/
theorem createDirectory_keeps {path : String} {mode : Mode}
    (h : t.createDirectory path mode = .ok t') : t.Keeps [] t' := by
  have hbind (parent : Place) (f : Place → Except FileError FileTree) :
      (Except.ok parent >>= f) = f parent := rfl
  unfold createDirectory at h
  by_cases hpath : path = ""
  · rw [if_pos hpath] at h
    cases h
  rw [if_neg hpath] at h
  dsimp only at h
  cases hparent : t.walk true linkLimit (t.origin path)
      ((steps path).reverse.dropWhile (· = "")).tail.reverse with
  | error e =>
    rw [hparent] at h
    cases h
  | ok parent =>
    rw [hparent, hbind] at h
    split at h
    · cases h
    · cases h
    · cases h
    · split at h
      · cases h
      · cases h
      · cases h
      · split_ifs at h with hlong hthere hopen
        obtain rfl := Except.ok.inj h
        refine .put_directory (List.append_ne_nil_of_right_ne_nil _ (List.cons_ne_nil _ _)) ?_
        rwa [Bool.not_eq_true, Option.isSome_eq_false_iff, Option.isNone_iff_eq_none] at hthere

/-- **Making directories leaves all files alone**, whether it succeeds or not.
By induction on the paths, from the innermost one. -/
theorem createChain_keeps (t : FileTree) (paths : List String) :
    t.Keeps [] (t.createChain paths).2 := by
  induction paths generalizing t with
  | nil => exact .refl t
  | cons path above ih =>
    rw [createChain]
    split
    · next hmade => exact createDirectory_keeps hmade
    · have habove := ih t
      split
      · next hchain =>
        rw [hchain] at habove
        exact habove
      · next hchain =>
        rw [hchain] at habove
        split
        · next hmade => exact habove.trans (createDirectory_keeps hmade)
        · exact habove
    · exact .refl t

theorem createDirectories_keeps (t : FileTree) (path : String) :
    t.Keeps [] (t.createDirectories path).2 :=
  createChain_keeps t _

/-! ## Files -/

/-- **Writing a text changes one file**, the one that the path leads to, if it
has a place of its own. Otherwise the text would show under its other names
too. -/
theorem writeText_eq_ok {path text : String} (h : t.writeText path text = .ok t') :
    ∃ place, t.reach path = .ok place ∧ (t.IsOwn place → t.Keeps [place] t' ∧
      ∃ mode, t'.get? place = some (.file (.text text) mode)) := by
  have hbind (place : Place) (f : Place → Except FileError FileTree) :
      (Except.ok place >>= f) = f place := rfl
  unfold writeText writeContent at h
  cases hreach : t.reach path with
  | error e =>
    rw [hreach] at h
    cases h
  | ok place =>
    rw [hreach, hbind] at h
    refine ⟨place, rfl, fun hown => ?_⟩
    -- the root is a directory
    have hplace {found : Option Entry} (hentry : t.get? place = found)
        (hfile : ∀ mode, found ≠ some (.directory mode)) : place ≠ [] := by
      rintro rfl
      exact hfile t.rootMode hentry.symm
    split at h
    · cases h
    · cases h
    · next old mode hentry =>
      split_ifs at h
      obtain rfl := Except.ok.inj h
      have hold : old.replacedBy (.text text) = .text text := by
        have hholds := hown.holdsText
        rw [hentry] at hholds
        cases old with
        | device => cases hholds
        | text _ => rfl
        | binary _ => rfl
      have hafter := get?_alter_self (hplace hentry nofun)
        (.file (old.replacedBy (.text text)) mode) hentry
      rw [hold] at hafter ⊢
      exact ⟨.of_file rfl (fun goal => get?_alter_of_ne hown.hasOneName)
        (.inr ⟨old, mode, hentry⟩) hafter fun goal hgoal => hgoal.alter place _, mode, hafter⟩
    · next hentry =>
      split_ifs at h
      obtain rfl := Except.ok.inj h
      have hput := get?_put (hplace hentry nofun) t (.file (.text text) fileMode)
      have hafter := (hput place).trans (if_pos rfl)
      exact ⟨.of_file rfl (fun goal hgoal => (hput goal).trans (if_neg hgoal)) (.inl hentry) hafter
        fun goal hgoal => hgoal.put place _, fileMode, hafter⟩

/-- Writes texts to files of a directory, one after the other. -/
def writeFiles (t : FileTree) (directory : String) :
    List (String × String) → Except FileError FileTree
  | [] => .ok t
  | (name, text) :: rest =>
    match t.writeText (Path.join directory name) text with
    | .ok t => writeFiles t directory rest
    | .error e => .error e

/-- **Makes a directory and writes texts to files of it.** -/
def store (t : FileTree) (directory : String) (files : List (String × String)) :
    Except FileError FileTree :=
  match t.createDirectories directory with
  | (.ok (), t) => t.writeFiles directory files
  | (.error e, _) => .error e

/-- **The places for files of a directory** are all places of their own. The
directory may be made first. -/
def HasRoomFor (t : FileTree) (directory : String) (files : List (String × String)) : Prop :=
  ∀ place, (t.createDirectories directory).2.folder directory = .ok place →
    ∀ file ∈ files, t.IsOwn (place ++ [file.1])

/-- **A tree that was given files in a directory**, which is at `place`: every
text is where its path leads, which is an entry of the directory, and nothing
else has changed but that there may be further directories. -/
structure Receives (t : FileTree) (directory : String) (files : List (String × String))
    (place : Place) (t' : FileTree) : Prop where
  folder : t'.folder directory = .ok place
  holds : ∀ file ∈ files, t'.reach (Path.join directory file.1) = .ok (place ++ [file.1]) ∧
    ∃ mode, t'.get? (place ++ [file.1]) = some (.file (.text file.2) mode)
  keeps : t.Keeps (files.map fun file => place ++ [file.1]) t'

variable {directory : String} {files : List (String × String)}

/-- A file that can be written has its directory, and is an entry of it if
that is a place of its own. -/
theorem exists_folder_of_reach {file : String} (h : Path.IsPlain file)
    (hreach : t.reach (Path.join directory file) = .ok goal) :
    ∃ place, t.folder directory = .ok place ∧
      (t.IsOwn (place ++ [file]) → goal = place ++ [file]) := by
  rw [reach, if_neg (join_ne_empty h)] at hreach
  obtain ⟨place, hfolder, hplace⟩ := exists_folder_of_walk h hreach
  exact ⟨place, hfolder, fun hown => hplace fun _ => hown.ne_link⟩

/-- **The run lemma**: texts written to files of different names in a
directory are there afterwards. By induction on the list; what a file holds is
not changed by the writes after it because they go elsewhere. -/
theorem writeFiles_receives (hplain : ∀ file ∈ files, Path.IsPlain file.1)
    (hnames : (files.map Prod.fst).Nodup) (hfolder : t.folder directory = .ok place)
    (hown : ∀ file ∈ files, t.IsOwn (place ++ [file.1]))
    (h : t.writeFiles directory files = .ok t') : t.Receives directory files place t' := by
  induction files generalizing t with
  | nil =>
    obtain rfl := Except.ok.inj h
    exact ⟨hfolder, List.forall_mem_nil _, .refl t⟩
  | cons file rest ih =>
    obtain ⟨name, text⟩ := file
    obtain ⟨hname, hrest⟩ := List.forall_mem_cons.mp hplain
    obtain ⟨hfresh, hnames⟩ := List.nodup_cons.mp hnames
    obtain ⟨hfirst, hown⟩ := List.forall_mem_cons.mp hown
    -- the other files have other places
    have hothers (file : String × String) (hfile : file ∈ rest) :
        place ++ [file.1] ≠ place ++ [name] := by
      intro heq
      obtain rfl := List.singleton_inj.mp (List.append_cancel_left heq)
      exact hfresh (List.mem_map.mpr ⟨file, hfile, rfl⟩)
    rw [writeFiles] at h
    split at h
    · next t₁ hwrite =>
      obtain ⟨goal, hreach, hwritten⟩ := writeText_eq_ok hwrite
      obtain ⟨_, hplace, hgoal⟩ := exists_folder_of_reach hname hreach
      obtain rfl := Except.ok.inj (hfolder.symm.trans hplace)
      obtain rfl := hgoal hfirst
      obtain ⟨hkeeps, mode, hentry⟩ := hwritten hfirst
      have hlater := ih hrest hnames (hkeeps.folder hfolder) (fun file hfile =>
        hkeeps.isOwn (fun hmem => hothers file hfile (List.mem_singleton.mp hmem))
          (hown file hfile)) h
      have hkept := hkeeps.trans hlater.keeps
      refine ⟨hlater.folder,
        List.forall_mem_cons.mpr ⟨⟨hkept.reach hreach, mode, ?_⟩, hlater.holds⟩, hkept⟩
      refine (hlater.keeps.file _ (fun hmem => ?_) _ mode).mpr hentry
      obtain ⟨other, hother, heq⟩ := List.mem_map.mp hmem
      exact hothers other hother heq
    · cases h

/-- The first file that is written finds the directory, so there is one if
there is a file. -/
theorem exists_folder_of_writeFiles (hplain : ∀ file ∈ files, Path.IsPlain file.1)
    (hne : files ≠ []) (h : t.writeFiles directory files = .ok t') :
    ∃ place, t.folder directory = .ok place := by
  obtain ⟨⟨name, text⟩, rest, rfl⟩ := List.exists_cons_of_ne_nil hne
  rw [writeFiles] at h
  split at h
  · next t₁ hwrite =>
    obtain ⟨goal, hreach, -⟩ := writeText_eq_ok hwrite
    obtain ⟨place, hfolder, -⟩ :=
      exists_folder_of_reach (List.forall_mem_cons.mp hplain).1 hreach
    exact ⟨place, hfolder⟩
  · cases h

/-- **Files of different names that are written to a directory** are all
received by it, if there is room for them. The directory is made first, which
leaves the room as it is. -/
theorem store_eq_ok (hplain : ∀ file ∈ files, Path.IsPlain file.1)
    (hnames : (files.map Prod.fst).Nodup) (hne : files ≠ [])
    (hroom : t.HasRoomFor directory files) (h : t.store directory files = .ok t') :
    ∃ place, t.Receives directory files place t' := by
  have hmade := t.createDirectories_keeps directory
  rw [store] at h
  split at h
  · next t₁ hcreate =>
    rw [HasRoomFor, hcreate] at hroom
    rw [hcreate] at hmade
    obtain ⟨place, hfolder⟩ := exists_folder_of_writeFiles hplain hne h
    have hown (file : String × String) (hfile : file ∈ files) : t₁.IsOwn (place ++ [file.1]) :=
      hmade.isOwn List.not_mem_nil (hroom place hfolder file hfile)
    obtain ⟨hthere, hholds, hkeeps⟩ := writeFiles_receives hplain hnames hfolder hown h
    exact ⟨place, hthere, hholds, hmade.trans hkeeps⟩
  · cases h

end FileTree

end MapleCompiler
