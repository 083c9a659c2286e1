import MapleCompiler.Host.FileTree
import MapleCompiler.Proofs.Text.Lines

/-!
# Names of files in a directory

A path that is made by joining a directory and a name should lead to an entry of
that directory. In general it does not: the name may start from the root, have
slashes of its own, or be a step that stays or goes up. This module says which names
do (`Path.IsPlain`), and what joining is for them, in three ways.

* For the text of the path, `Path.components_join`: its components are those of the
  directory and then the name.
* For the walk through a tree, `FileTree.walk_steps_join`: it walks to the directory and
  makes one more step.
* For the place where the walk ends, `FileTree.exists_folder_of_walk`: it is the place of
  the directory with the name after it, unless a link stands there that is to be gone
  through.

`Path.IsEntry` puts together what follows for a path that is made so.
-/

namespace MapleCompiler

namespace Path

/-- **A plain name of a file**: a single piece of a path, which is no step
that stays or goes up. -/
structure IsPlain (file : String) : Prop where
  ne_empty : file ≠ ""
  ne_stay : file ≠ "."
  ne_up : file ≠ ".."
  single : '/' ∉ file.toList

/-- A name with an ending of three characters or more is plain if it has no
slash: it is too long to be a step. -/
theorem IsPlain.append {base ending : String} (hbase : '/' ∉ base.toList)
    (hending : '/' ∉ ending.toList) (hlength : 3 ≤ ending.length) : IsPlain (base ++ ending) := by
  have hlong : 3 ≤ (base ++ ending).length := by
    rw [String.length_append]
    omega
  have hne {short : String} (hshort : short.length < 3) : base ++ ending ≠ short := by
    rintro rfl
    omega
  refine ⟨hne (by decide), hne (by decide), hne (by decide), ?_⟩
  rw [String.toList_append, List.mem_append, not_or]
  exact ⟨hbase, hending⟩

theorem IsPlain.isAbsolute_eq {file : String} (h : IsPlain file) : isAbsolute file = false := by
  rw [← Bool.not_eq_true]
  intro habsolute
  exact h.single (List.mem_of_head? (beq_iff_eq.mp habsolute))

/-- The pieces that say something. A `.` does so only if it comes first. -/
def telling : List Piece → List Piece
  | [] => []
  | first :: rest =>
    (if first = [] then [] else [first]) ++ rest.filter fun piece => piece ≠ [] ∧ piece ≠ ['.']

/-- **The components of a path**: its pieces that say something, first one
first. -/
def components (path : String) : List String :=
  (telling (Lines.splitAt '/' path.toList)).map String.ofList

theorem telling_append {pieces : List Piece} (h : pieces ≠ []) (more : List Piece) :
    telling (pieces ++ more) =
      telling pieces ++ more.filter fun piece => piece ≠ [] ∧ piece ≠ ['.'] := by
  cases pieces with
  | nil => exact absurd rfl h
  | cons first rest =>
    simp only [List.cons_append, telling, List.filter_append, List.append_assoc]

variable {directory file : String}

/-- **A plain name is put after a slash**, unless there is no directory to
name. The slash may be the last character of the directory. -/
theorem join_cases (h : IsPlain file) (directory : String) :
    directory = "" ∧ join directory file = file ∨
      ∃ front, (join directory file).toList = front ++ '/' :: file.toList ∧
        (directory.toList = front ++ ['/'] ∨ directory.toList = front ∧ front ≠ []) := by
  unfold join
  rw [h.isAbsolute_eq, Bool.false_or]
  by_cases hempty : directory = ""
  · exact .inl ⟨hempty, by rw [if_pos (decide_eq_true hempty)]⟩
  rw [if_neg (by rwa [decide_eq_true_eq])]
  have hchars : directory.toList ≠ [] := fun hnil => hempty (String.toList_eq_nil_iff.mp hnil)
  by_cases hslash : directory.toList.getLast? = some '/'
  · obtain ⟨front, hfront⟩ := List.getLast?_eq_some_iff.mp hslash
    refine .inr ⟨front, ?_, .inl hfront⟩
    rw [if_pos (beq_iff_eq.mpr hslash), String.toList_append, hfront, List.append_assoc]
    rfl
  · refine .inr ⟨directory.toList, ?_, .inr ⟨rfl, hchars⟩⟩
    rw [if_neg (by rwa [beq_iff_eq]), String.toList_append, String.toList_append,
      List.append_assoc]
    rfl

/-- A path with a plain name starts where the directory does, also if there is
no directory to name. -/
theorem isAbsolute_join (h : IsPlain file) :
    isAbsolute (join directory file) = isAbsolute directory := by
  obtain ⟨rfl, hjoin⟩ | ⟨front, hjoin, hdirectory⟩ := join_cases h directory
  · rw [hjoin, h.isAbsolute_eq]
    rfl
  · unfold isAbsolute
    rw [hjoin]
    obtain hdirectory | ⟨hdirectory, hne⟩ := hdirectory
    · rw [hdirectory]
      cases front <;> rfl
    · rw [hdirectory]
      obtain ⟨c, front, rfl⟩ := List.exists_cons_of_ne_nil hne
      rfl

/-- **A plain name is the last component of the path**; those before it are
the directory's. Steps that say nothing are left out of both. -/
theorem components_join (h : IsPlain file) :
    components (join directory file) = components directory ++ [file] := by
  have hfile : file.toList ≠ [] := fun hnil => h.ne_empty (String.toList_eq_nil_iff.mp hnil)
  have hstay : file.toList ≠ ['.'] := fun hdot => h.ne_stay (String.toList_inj.mp hdot)
  unfold components
  obtain ⟨rfl, hjoin⟩ | ⟨front, hjoin, hdirectory⟩ := join_cases h directory
  · rw [hjoin, Lines.splitAt_of_notMem h.single, telling, if_neg hfile]
    exact congrArg (· :: []) String.ofList_toList
  · have hpieces : telling (Lines.splitAt '/' directory.toList) =
        telling (Lines.splitAt '/' front) := by
      obtain hdirectory | ⟨hdirectory, -⟩ := hdirectory
      · rw [hdirectory, Lines.splitAt_append, telling_append (Lines.splitAt_ne_nil _ _)]
        exact List.append_nil _
      · rw [hdirectory]
    rw [hjoin, hpieces, Lines.splitAt_append, telling_append (Lines.splitAt_ne_nil _ _),
      Lines.splitAt_of_notMem h.single, List.filter_cons_of_pos (by simp [hfile, hstay]),
      List.filter_nil, List.map_append, List.map_singleton, String.ofList_toList]

/-! ## The name of the file that a path leads to -/

theorem mem_of_mem_trim {pieces : List Piece} {piece : Piece} (h : piece ∈ trim pieces) :
    piece ∈ pieces := by
  fun_induction trim pieces with
  | case1 => exact h
  | case2 => cases h
  | case3 => exact h
  | case4 first rest _ _ ih => exact List.mem_cons_of_mem first (ih h)
  | case5 => exact h

theorem slash_notMem_of_fileName? {path : String} {name : Piece} (h : fileName? path = some name) :
    '/' ∉ name := by
  have hmem : name ∈ trim (pieces path) := by
    unfold fileName? at h
    split at h
    · cases h
    · next first rest htrim =>
      split_ifs at h
      obtain rfl := Option.some.inj h
      rw [htrim]
      exact List.mem_cons_self
  exact Lines.notMem_of_mem_splitAt (List.mem_reverse.mp (mem_of_mem_trim hmem))

theorem splitExtension_subset (name : Piece) : (splitExtension name).1 ⊆ name := by
  unfold splitExtension
  split
  · exact List.Subset.refl name
  · next c stem hstem =>
    split
    · exact List.Subset.refl name
    · intro x hx
      have hrest : x ∈ name.reverse.dropWhile (· != '.') :=
        hstem ▸ List.mem_cons_of_mem c (List.mem_reverse.mp hx)
      exact List.mem_reverse.mp ((List.dropWhile_sublist _).subset hrest)

/-- **A path with an extension has a stem**, which is a single piece. -/
theorem exists_stem_of_extension? {path ext : String} (h : extension? path = some ext) :
    ∃ stem, stem? path = some stem ∧ '/' ∉ stem.toList := by
  unfold extension? at h
  obtain ⟨_, hext, -⟩ := Option.map_eq_some_iff.mp h
  obtain ⟨name, hname, -⟩ := Option.bind_eq_some_iff.mp hext
  refine ⟨String.ofList (splitExtension name).1, by rw [stem?, hname]; rfl, ?_⟩
  rw [String.toList_ofList]
  exact fun hmem => slash_notMem_of_fileName? hname (splitExtension_subset name hmem)

end Path

namespace FileTree

variable {t : FileTree} {place goal : Place} {directory file step : String} {rest : List String}
  {through : Bool} {enter enter' : Place → List String → Except FileError Place}

/-- **Where the files of a directory are**, behind all links. Without a
directory they are in the working directory. -/
def folder (t : FileTree) (directory : String) : Except FileError Place :=
  t.walk true linkLimit (t.origin directory) (steps directory)

theorem steps_eq (path : String) :
    steps path = (Lines.splitAt '/' path.toList).map String.ofList := by
  rw [steps, Path.pieces, List.reverse_reverse]

/-- An empty step before another one says nothing, if it says nothing behind a
link. -/
theorem walkBy_empty (henter : ∀ origin front,
      enter origin (front ++ "" :: step :: rest) = enter origin (front ++ step :: rest))
    (place : Place) (front : List String) :
    t.walkBy through enter place (front ++ "" :: step :: rest) =
      t.walkBy through enter place (front ++ step :: rest) := by
  induction front generalizing place with
  | nil =>
    rw [List.nil_append, List.nil_append, walkBy]
    cases hentry : t.get? place with
    | none => rw [walkBy, hentry]
    | some entry =>
      cases entry with
      | file content mode => rw [walkBy, hentry]
      | link target =>
        rw [walkBy, hentry]
        dsimp only
        rw [henter]
      | directory mode =>
        dsimp only
        by_cases hpass : (!mode.gives .pass) = true
        · rw [if_pos hpass, walkBy, hentry]
          dsimp only
          rw [if_pos hpass]
        · rw [if_neg hpass, if_pos (.inl rfl)]
  | cons first front ih =>
    rw [List.cons_append, List.cons_append, walkBy, walkBy]
    cases t.get? place with
    | none => rfl
    | some entry =>
      cases entry with
      | file content mode => rfl
      | link target =>
        dsimp only
        have hsteps (more : List String) :
            steps target ++ first :: (front ++ more) =
              (steps target ++ first :: front) ++ more := by
          rw [List.append_assoc, List.cons_append]
        rw [hsteps, hsteps, henter]
      | directory mode =>
        dsimp only
        rw [ih, ih, ih]

/-- An empty step before another one says nothing. By induction on the links
that the walk may meet. -/
theorem walk_empty (t : FileTree) (through : Bool) (limit : Nat) (place : Place)
    (front : List String) (step : String) (rest : List String) :
    t.walk through limit place (front ++ "" :: step :: rest) =
      t.walk through limit place (front ++ step :: rest) := by
  induction limit generalizing place front with
  | zero => exact walkBy_empty (fun _ _ => rfl) place front
  | succ limit ih => exact walkBy_empty (fun origin front => ih origin front) place front

/-- **A plain name is one more step after those to the directory.** If the
directory ends with a slash there is an empty step between, which says
nothing. -/
theorem walk_steps_join (h : Path.IsPlain file) (through : Bool) (limit : Nat) :
    t.walk through limit (t.origin (Path.join directory file)) (steps (Path.join directory file)) =
      t.walk through limit (t.origin directory) (steps directory ++ [file]) := by
  have hsteps (cs : List Char) :
      (Lines.splitAt '/' (cs ++ '/' :: file.toList)).map String.ofList =
        (Lines.splitAt '/' cs).map String.ofList ++ [file] := by
    rw [Lines.splitAt_append, Lines.splitAt_of_notMem h.single, List.map_append,
      List.map_singleton, String.ofList_toList]
  rw [origin, Path.isAbsolute_join h, ← origin, steps_eq, steps_eq]
  obtain ⟨rfl, hjoin⟩ | ⟨front, hjoin, hdirectory | ⟨hdirectory, -⟩⟩ := Path.join_cases h directory
  · rw [hjoin, Lines.splitAt_of_notMem h.single, List.map_singleton, String.ofList_toList]
    exact (t.walk_empty through limit _ [] file []).symm
  · -- the slash at the end of the directory leaves an empty step
    rw [hjoin, hsteps, hdirectory, Lines.splitAt_append, List.map_append, List.append_assoc]
    exact (t.walk_empty through limit _ _ file []).symm
  · rw [hjoin, hsteps, hdirectory]

theorem join_ne_empty (h : Path.IsPlain file) : Path.join directory file ≠ "" := by
  intro hempty
  obtain ⟨-, hjoin⟩ | ⟨front, hjoin, -⟩ := Path.join_cases h directory
  · exact h.ne_empty (hjoin.symm.trans hempty)
  · rw [hempty] at hjoin
    exact List.append_ne_nil_of_right_ne_nil front (List.cons_ne_nil _ _) hjoin.symm

/-- **A walk that goes on has reached a directory**, if those behind links
have. By induction on the steps before; a link on the way is followed in both
walks. -/
theorem exists_walkBy_of_append {Goes : Place → Prop}
    (hgoes : ∀ place mode, t.get? place = some (.directory mode) →
      t.walkBy through enter place (step :: rest) = .ok goal → Goes place)
    (henter : ∀ origin front, enter origin (front ++ step :: rest) = .ok goal →
      ∃ middle, enter' origin front = .ok middle ∧ Goes middle)
    {front : List String} (h : t.walkBy through enter place (front ++ step :: rest) = .ok goal) :
    ∃ middle, t.walkBy true enter' place front = .ok middle ∧ Goes middle := by
  induction front generalizing place with
  | nil =>
    rw [List.nil_append] at h
    have hstart := id h
    rw [walkBy] at h
    rw [walkBy]
    cases hentry : t.get? place with
    | none =>
      rw [hentry] at h
      cases h
    | some entry =>
      rw [hentry] at h
      cases entry with
      | file content mode => cases h
      | link target =>
        dsimp only at h ⊢
        rw [if_neg (by decide)]
        split_ifs at h ⊢ with hempty
        exact henter _ _ h
      | directory mode => exact ⟨place, rfl, hgoes place mode hentry hstart⟩
  | cons first front ih =>
    rw [List.cons_append, walkBy] at h
    rw [walkBy]
    cases hentry : t.get? place with
    | none =>
      rw [hentry] at h
      cases h
    | some entry =>
      rw [hentry] at h
      cases entry with
      | file content mode => cases h
      | link target =>
        dsimp only at h ⊢
        split_ifs at h ⊢ with hempty
        refine henter _ _ ?_
        rwa [List.append_assoc, List.cons_append]
      | directory mode =>
        dsimp only at h ⊢
        split_ifs at h ⊢
        · exact ih h
        · exact ih h
        · exact ih h

/-- **A walk that goes on has reached a directory**, and goes on from there.
By induction on the links that it may meet on the way. -/
theorem exists_walk_of_append {limit : Nat} {front : List String}
    (h : t.walk through limit place (front ++ step :: rest) = .ok goal) :
    ∃ middle, t.walk true limit place front = .ok middle ∧
      ∃ mode enter, t.get? middle = some (.directory mode) ∧
        t.walkBy through enter middle (step :: rest) = .ok goal := by
  induction limit generalizing place front with
  | zero =>
    refine exists_walkBy_of_append (fun middle mode hentry hgoes => ?_) (fun _ _ hbad => ?_) h
    · exact ⟨mode, _, hentry, hgoes⟩
    · cases hbad
  | succ limit ih =>
    rw [walk] at h
    refine exists_walkBy_of_append (fun middle mode hentry hgoes => ?_) (fun _ _ hwalk => ?_) h
    · exact ⟨mode, _, hentry, hgoes⟩
    · exact ih hwalk

/-- A place that a walk does not go on from: no link stands there, or links
are not gone through. -/
theorem walkBy_nil (h : through = true → ∀ target, t.get? place ≠ some (.link target)) :
    t.walkBy through enter place [] = .ok place := by
  rw [walkBy]
  split
  · next target hentry =>
    cases through with
    | false => rfl
    | true => exact absurd hentry (h rfl target)
  · rfl

/-- **A plain name leads to an entry of the directory**, unless a link stands
there and is gone through. -/
theorem exists_folder_of_walk (h : Path.IsPlain file)
    (hwalk : t.walk through linkLimit (t.origin (Path.join directory file))
      (steps (Path.join directory file)) = .ok goal) :
    ∃ place, t.folder directory = .ok place ∧
      ((through = true → ∀ target, t.get? (place ++ [file]) ≠ some (.link target)) →
        goal = place ++ [file]) := by
  rw [walk_steps_join h] at hwalk
  obtain ⟨place, hfolder, mode, enter, hentry, hlast⟩ := exists_walk_of_append hwalk
  refine ⟨place, hfolder, fun hlink => ?_⟩
  rw [walkBy, hentry] at hlast
  dsimp only at hlast
  rw [if_neg (not_or.mpr ⟨h.ne_empty, h.ne_stay⟩), if_neg h.ne_up] at hlast
  split_ifs at hlast
  rw [walkBy_nil hlink] at hlast
  exact (Except.ok.inj hlast).symm

end FileTree

/-- **A path of a file right in a directory.** It has one component more than
the directory, the file's name, and in every tree where it leads anywhere it
leads to the entry of that name. -/
structure Path.IsEntry (directory file path : String) : Prop where
  isAbsolute : isAbsolute path = isAbsolute directory
  components : components path = components directory ++ [file]
  locate : ∀ (t : FileTree) (goal : Place), t.locate path = .ok goal →
    ∃ place, t.folder directory = .ok place ∧ goal = place ++ [file]

theorem Path.isEntry_join {file : String} (h : IsPlain file) (directory : String) :
    IsEntry directory file (join directory file) where
  isAbsolute := isAbsolute_join h
  components := components_join h
  locate t goal hgoal := by
    rw [FileTree.locate, if_neg (FileTree.join_ne_empty h)] at hgoal
    obtain ⟨place, hfolder, hplace⟩ := FileTree.exists_folder_of_walk h hgoal
    exact ⟨place, hfolder, hplace nofun⟩

end MapleCompiler
