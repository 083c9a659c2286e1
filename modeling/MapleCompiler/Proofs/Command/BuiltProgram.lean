import Mathlib.Data.List.Basic
import MapleCompiler.Command.Run
import MapleCompiler.Proofs.Host.Paths

/-!
# The program that is built and run

The C++ compiler is told where to put the program, and the program is then run from there.
The place is the path of the generated file without its extension, and it is found by
cutting that text: first the extension goes, then the point before it, each time from the
last piece of the path that says something. The directory is any text, with slashes, steps
and points of its own, and the name of the input may have points anywhere.

None of this matters for the name of a generated file. It has an extension and more than
points before it, so the cut leaves the directory alone (`Path.dropExtension_join`), and what
is left is a file of the directory with the same stem.

That the program is none of the generated files is said of paths and not of texts, for one
path has many texts (`Path.Same`). Main statement: `builtProgram_outputFile`.
-/

namespace MapleCompiler

namespace Path

/-- **Two texts of one path**: they start from the same place and go through
the same components. -/
def Same (path other : String) : Prop :=
  isAbsolute path = isAbsolute other ∧ components path = components other

variable {directory base ext file path : String}

/-! ## Joined paths as texts -/

/-- What is written before a name to make it a file of a directory. -/
def lead (directory : String) : String :=
  if directory = "" then ""
  else if directory.toList.getLast? = some '/' then directory
  else directory ++ "/"

theorem lead_of_getLast? (h : directory.toList.getLast? = some '/') :
    lead directory = directory := by
  unfold lead
  rw [if_pos h, ite_eq_right_iff]
  exact Eq.symm

theorem join_eq_lead (h : IsPlain file) (directory : String) :
    join directory file = lead directory ++ file := by
  unfold join lead
  rw [h.isAbsolute_eq, Bool.false_or]
  by_cases hempty : directory = ""
  · rw [if_pos (decide_eq_true hempty), if_pos hempty, String.empty_append]
  · rw [if_neg (by rwa [decide_eq_true_eq]), if_neg hempty]
    by_cases hslash : directory.toList.getLast? = some '/'
    · rw [if_pos (beq_iff_eq.mpr hslash), if_pos hslash]
    · rw [if_neg (by rwa [beq_iff_eq]), if_neg hslash]

/-- A joined path ends with the text that was joined, even if that starts from
the root. -/
theorem exists_join_eq_append (directory path : String) :
    ∃ front, join directory path = front ++ path := by
  unfold join
  split_ifs
  · exact ⟨"", String.empty_append.symm⟩
  · exact ⟨directory, rfl⟩
  · exact ⟨directory ++ "/", rfl⟩

/-- The last piece of a joined path is the name; those before it are the same
for all names. Pieces are listed from the end. -/
theorem exists_pieces_join (directory : String) :
    ∃ before, ∀ file, IsPlain file → pieces (join directory file) = file.toList :: before := by
  have hlead : lead directory = "" ∨ ∃ front, (lead directory).toList = front ++ ['/'] := by
    unfold lead
    split_ifs with hempty hslash
    · exact .inl rfl
    · exact .inr ((List.getLast?_eq_some_iff.mp hslash).imp fun _ h => h)
    · exact .inr ⟨directory.toList, String.toList_append⟩
  obtain hlead | ⟨front, hlead⟩ := hlead
  · refine ⟨[], fun file h => ?_⟩
    rw [join_eq_lead h, hlead, String.empty_append, pieces, Lines.splitAt_of_notMem h.single]
    rfl
  · refine ⟨(Lines.splitAt '/' front).reverse, fun file h => ?_⟩
    rw [join_eq_lead h, pieces, String.toList_append, hlead, List.append_assoc,
      List.singleton_append, Lines.splitAt_append, Lines.splitAt_of_notMem h.single,
      List.reverse_append, List.reverse_singleton, List.singleton_append]

theorem ofPieces_pieces (path : String) : ofPieces (pieces path) = path := by
  have hid : String.toList ∘ String.ofList = id := funext fun _ => String.toList_ofList
  rw [← String.toList_inj, ofPieces, pieces, List.reverse_reverse, String.toList_intercalate,
    List.map_map, hid, List.map_id]
  exact Lines.intercalate_splitAt '/' _

/-! ## Extensions -/

/-- The extension is what follows the last point, if something stands before
it. -/
theorem splitExtension_append {base ext : Piece} (hbase : base ≠ []) (hext : '.' ∉ ext) :
    splitExtension (base ++ '.' :: ext) = (base, some ext) := by
  have hrev : (base ++ '.' :: ext).reverse = ext.reverse ++ '.' :: base.reverse := by
    rw [List.reverse_append, List.reverse_cons, List.append_assoc, List.singleton_append]
  have hpass : ∀ c ∈ ext.reverse, (c != '.') = true := by
    intro c hc
    rw [bne_iff_ne]
    rintro rfl
    exact hext (List.mem_reverse.mp hc)
  unfold splitExtension
  rw [hrev, List.dropWhile_append_of_pos hpass, List.takeWhile_append_of_pos hpass,
    List.dropWhile_cons_of_neg (by decide), List.takeWhile_cons_of_neg (by decide),
    List.append_nil]
  dsimp only
  rw [if_neg (mt List.reverse_eq_nil_iff.mp hbase), List.reverse_reverse, List.reverse_reverse]

theorem trim_pieces (h : IsPlain file) {before : List Piece}
    (hpieces : pieces path = file.toList :: before) :
    trim (pieces path) = file.toList :: before := by
  have hempty : file.toList ≠ [] := fun hnil => h.ne_empty (String.toList_eq_nil_iff.mp hnil)
  have hstay : file.toList ≠ ['.'] := fun hdot => h.ne_stay (String.toList_inj.mp hdot)
  rw [hpieces]
  cases before with
  | nil => rw [trim, if_neg hempty]
  | cons piece before =>
    rw [trim, if_neg (not_or.mpr ⟨hempty, hstay⟩)]
    exact List.cons_ne_nil _ _

theorem fileName?_join (h : IsPlain file) (directory : String) :
    fileName? (join directory file) = some file.toList := by
  have hstay : file.toList ≠ ['.'] := fun hdot => h.ne_stay (String.toList_inj.mp hdot)
  have hup : file.toList ≠ ['.', '.'] := fun hdots => h.ne_up (String.toList_inj.mp hdots)
  obtain ⟨before, hbefore⟩ := exists_pieces_join directory
  rw [fileName?, trim_pieces h (hbefore file h)]
  exact if_neg (not_or.mpr ⟨hstay, hup⟩)

/-- A plain name with an extension is plain: what it has before the point is
no point. -/
theorem IsPlain.withExtension (h : IsPlain base) (hext : '/' ∉ ext.toList) :
    IsPlain (base ++ "." ++ ext) := by
  have hchars : (base ++ "." ++ ext).toList = base.toList ++ '.' :: ext.toList := by
    rw [String.toList_append, String.toList_append, List.append_assoc]
    rfl
  have hne {short : String} (hshort : base.toList ++ '.' :: ext.toList ≠ short.toList) :
      base ++ "." ++ ext ≠ short := fun heq => hshort (hchars.symm.trans (congrArg _ heq))
  refine ⟨hne ?_, hne ?_, hne ?_, ?_⟩
  · exact List.append_ne_nil_of_right_ne_nil _ (List.cons_ne_nil _ _)
  · cases hbase : base.toList with
    | nil => exact absurd (String.toList_eq_nil_iff.mp hbase) h.ne_empty
    | cons c cs => simp
  · cases hbase : base.toList with
    | nil => exact absurd (String.toList_eq_nil_iff.mp hbase) h.ne_empty
    | cons c cs =>
      have hstay : c :: cs ≠ ['.'] := hbase ▸ fun hdot => h.ne_stay (String.toList_inj.mp hdot)
      cases cs with
      | nil => simp_all
      | cons c' cs => simp
  · rw [hchars, List.mem_append, List.mem_cons, not_or, not_or]
    exact ⟨h.single, by decide, hext⟩

/-- The name of a file and its extension, split: an extension has no point, so
the last one is that before it. -/
theorem splitExtension_fileName?_join (h : IsPlain base) (hext : '/' ∉ ext.toList)
    (hpoint : '.' ∉ ext.toList) (directory : String) :
    (fileName? (join directory (base ++ "." ++ ext))).map splitExtension =
      some (base.toList, some ext.toList) := by
  have hbase : base.toList ≠ [] := fun hnil => h.ne_empty (String.toList_eq_nil_iff.mp hnil)
  rw [fileName?_join (h.withExtension hext), String.toList_append, String.toList_append,
    List.append_assoc]
  exact congrArg some (splitExtension_append hbase hpoint)

/-- **A path up to the last point of a plain name** is the path of what stands
before it. -/
theorem cutAtPoint_join (h : IsPlain base) (hext : '/' ∉ ext.toList) (hpoint : '.' ∉ ext.toList)
    (directory : String) :
    cutAtPoint (join directory (base ++ "." ++ ext)) = join directory base := by
  have hfile := h.withExtension hext
  obtain ⟨before, hbefore⟩ := exists_pieces_join directory
  have hsplit := splitExtension_fileName?_join h hext hpoint directory
  rw [fileName?_join hfile] at hsplit
  rw [cutAtPoint, fileName?_join hfile]
  dsimp only
  rw [trim_pieces hfile (hbefore _ hfile), List.tail_cons, Option.some.inj hsplit,
    ← hbefore base h, ofPieces_pieces]

/-- **A file loses its extension and nothing else.** The base may have points
of its own, which stay. -/
theorem dropExtension_join (h : IsPlain base) (hext : '/' ∉ ext.toList) (hpoint : '.' ∉ ext.toList)
    (directory : String) :
    dropExtension (join directory (base ++ "." ++ ext)) = join directory base := by
  have hextension : extension? (join directory (base ++ "." ++ ext)) = some ext := by
    have hsplit := splitExtension_fileName?_join h hext hpoint directory
    obtain ⟨name, hname, hsplit⟩ := Option.map_eq_some_iff.mp hsplit
    rw [extension?, hname, Option.bind_some, hsplit, Option.map_some, String.ofList_toList]
  -- the text without the extension is a joined path again, with a point at its end
  have hstretch : join directory (base ++ "." ++ ext) =
      join directory (base ++ "." ++ "") ++ ext := by
    rw [join_eq_lead (h.withExtension hext), join_eq_lead (h.withExtension (by decide)),
      String.append_empty]
    exact String.append_assoc.symm
  have hkept : (join directory (base ++ "." ++ ext)).toList.take
      ((join directory (base ++ "." ++ ext)).length - ext.length) =
        (join directory (base ++ "." ++ "")).toList := by
    rw [hstretch, String.toList_append, String.length_append, Nat.add_sub_cancel,
      ← String.length_toList, List.take_left]
  rw [dropExtension, hextension, Option.getD_some, hkept, String.ofList_toList]
  exact cutAtPoint_join h (by decide) (by decide) directory

/-! ## The last component -/

/-- **The last component of a path with a long ending** has that ending
too. -/
theorem getLast?_components (front : String) {ending : String} (hending : '/' ∉ ending.toList)
    (hlength : 3 ≤ ending.length) :
    ∃ base, (components (front ++ ending)).getLast? = some (base ++ ending) := by
  -- what stands before the last slash is a directory
  obtain ⟨directory, base, hbase, hjoin⟩ : ∃ directory base, '/' ∉ base.toList ∧
      front ++ ending = join directory (base ++ ending) := by
    by_cases hslash : '/' ∈ front.toList
    · obtain ⟨last, before, hfront, hlast⟩ :=
        List.eq_append_cons_of_mem (List.mem_reverse.mpr hslash)
      have hlast' : '/' ∉ (String.ofList last.reverse).toList := by
        rwa [String.toList_ofList, List.mem_reverse]
      refine ⟨String.ofList (before.reverse ++ ['/']), String.ofList last.reverse, hlast', ?_⟩
      have hchars : front.toList = before.reverse ++ ['/'] ++ last.reverse := by
        rw [← front.toList.reverse_reverse, hfront, List.reverse_append, List.reverse_cons]
      rw [join_eq_lead (.append hlast' hending hlength), lead_of_getLast? (by simp),
        ← String.append_assoc, ← String.ofList_append, ← hchars, String.ofList_toList]
    · refine ⟨"", front, hslash, ?_⟩
      rw [join_eq_lead (.append hslash hending hlength)]
      exact String.empty_append.symm
  rw [hjoin, components_join (.append hbase hending hlength)]
  exact ⟨base, List.getLast?_concat⟩

end Path

variable {directory stem : String}

/-- **What is built is called like the generated file**, without its
extension, and is put next to it. -/
theorem builtProgram_join (hstem : '/' ∉ stem.toList) (directory : String) :
    builtProgram (Path.join directory (outputFile stem)) =
      Path.join directory (stem ++ outputSuffix) := by
  have hplain : Path.IsPlain (stem ++ outputSuffix) := .append hstem (by decide) (by decide)
  have hfile : outputFile stem = stem ++ outputSuffix ++ "." ++ "cpp" := by
    rw [String.append_assoc]
    rfl
  rw [builtProgram, hfile]
  exact Path.dropExtension_join hplain (by decide) (by decide) directory

theorem Path.IsPlain.program (hstem : '/' ∉ stem.toList) : Path.IsPlain (stem ++ outputSuffix) :=
  .append hstem (by decide) (by decide)

/-- **The program is no file with an ending of another last character**,
wherever that file is. -/
theorem not_same_of_getLast? (hstem : '/' ∉ stem.toList) (front : String) {ending : String}
    (hending : '/' ∉ ending.toList) (hlength : 3 ≤ ending.length)
    (hlast : ending.toList.getLast? ≠ outputSuffix.toList.getLast?) :
    ¬ Path.Same (Path.join directory (stem ++ outputSuffix)) (front ++ ending) := by
  rintro ⟨-, hsame⟩
  obtain ⟨base, hbase⟩ := Path.getLast?_components front hending hlength
  rw [← hsame, Path.components_join (.program hstem), List.getLast?_concat] at hbase
  have hne : ending.toList ≠ [] := by
    rw [← List.length_pos_iff, String.length_toList]
    omega
  have hchars := congrArg (fun name => name.toList.getLast?) (Option.some.inj hbase)
  rw [String.toList_append, String.toList_append, List.getLast?_append_of_ne_nil _ (by decide),
    List.getLast?_append_of_ne_nil _ hne] at hchars
  exact hlast hchars.symm

/-- **The program that is run is the one that was built**: the file of the
output directory with the stem of the input and no extension. It is not a
generated program, not the header of a library, and not the program built from
an input with another stem. -/
theorem builtProgram_outputFile (directory : String) {stem : String} (hstem : '/' ∉ stem.toList) :
    builtProgram (Path.join directory (outputFile stem)) =
        Path.join directory (stem ++ outputSuffix) ∧
      (∀ other, ¬ Path.Same (builtProgram (Path.join directory (outputFile stem)))
        (Path.join directory (outputFile other))) ∧
      (∀ name, ¬ Path.Same (builtProgram (Path.join directory (outputFile stem)))
        (Path.join directory (headerFile name))) ∧
      ∀ other, '/' ∉ other.toList → other ≠ stem →
        ¬ Path.Same (builtProgram (Path.join directory (outputFile stem)))
          (builtProgram (Path.join directory (outputFile other))) := by
  rw [builtProgram_join hstem]
  refine ⟨rfl, fun other => ?_, fun name => ?_, fun other hother hne => ?_⟩
  · obtain ⟨front, hfront⟩ := Path.exists_join_eq_append directory (outputFile other)
    rw [hfront, outputFile, ← String.append_assoc]
    exact not_same_of_getLast? hstem _ (by decide) (by decide) (by decide)
  · obtain ⟨front, hfront⟩ := Path.exists_join_eq_append directory (headerFile name)
    rw [hfront, headerFile, ← String.append_assoc]
    exact not_same_of_getLast? hstem _ (by decide) (by decide) (by decide)
  · rw [builtProgram_join hother]
    rintro ⟨-, hsame⟩
    rw [Path.components_join (.program hstem), Path.components_join (.program hother)] at hsame
    have hname := (List.cons.inj (List.append_cancel_left hsame)).1
    exact hne ((String.append_left_inj _).mp hname).symm

/-- Points in the directory and at both ends of the stem, steps and doubled
slashes stay. -/
theorem builtProgram_outputFile_points :
    '/' ∉ "..v1.cpp.".toList ∧ builtProgram (Path.join "./out.d/..//b./" (outputFile "..v1.cpp.")) =
          "./out.d/..//b./..v1.cpp._Maple" ∧
      ¬ Path.Same (builtProgram (Path.join "./out.d/..//b./" (outputFile "..v1.cpp.")))
        (Path.join "./out.d/..//b./" (headerFile "/..v1.cpp._Maple")) ∧
      ¬ Path.Same (builtProgram (Path.join "./out.d/..//b./" (outputFile "..v1.cpp.")))
        (builtProgram (Path.join "./out.d/..//b./" (outputFile "..v1.cpp"))) := by
  obtain ⟨hpath, -, hheader, hother⟩ :=
    builtProgram_outputFile "./out.d/..//b./" (by decide : '/' ∉ "..v1.cpp.".toList)
  exact ⟨by decide, hpath.trans (by decide), hheader _, hother _ (by decide) (by decide)⟩

end MapleCompiler
