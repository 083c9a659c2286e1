import MapleCompiler.Program.Equality
import MapleCompiler.Proofs.Acceptance.Shape
import MapleCompiler.Proofs.Emission.Includes

/-!
# The contents of a header

The reader of a library and the writer of its header each have their own idea of what
a library is made of. The reader looks at the word a statement begins with; the writer
goes over the nodes once for each kind that it knows, and passes over any other. This
module says that the two agree: every node of a library that was read is found in its
header, once, and nothing else is found there (`Program.WholeHeader`).

The header is looked at as a text, line by line. A line that includes a file next to
it, one that opens a namespace and one that begins with a type are told apart by how
they begin and end (`Item.ofLine?`); a function goes on up to a line that is a brace
alone. What is found in the code of a library is then said in closed form, section by
section (`Program.Accepted.reads_programLines`), and compared with its nodes kind by
kind: within a kind the order is that of the source.
-/

namespace MapleCompiler

namespace Cpp

/-- **What stands in a header** outside of all functions. -/
inductive Item
  /-- A line that includes a file next to the header. -/
  | inclusion (line : String)
  /-- A line that opens a namespace. -/
  | space (line : String)
  /-- A line that declares a variable, with its type and name. -/
  | declaration (type : ValueType) (name line : String)
  /-- The lines of a function, with its type and name. -/
  | definition (type : ValueType) (name : String) (lines : List String)
deriving DecidableEq

namespace Item

/-- The kinds of items. -/
inductive Kind
  | inclusion
  | space
  | declaration
  | definition
deriving DecidableEq

/-- The kind of an item. -/
def kind : Item → Kind
  | inclusion _ => .inclusion
  | space _ => .space
  | declaration _ _ _ => .declaration
  | definition _ _ _ => .definition

/-! ## Items of a text -/

/-- What is left of a line that begins with some characters. -/
def after? (front line : List Char) : Option (List Char) :=
  if front.isPrefixOf line then some (line.drop front.length) else none

/-- The type that a line begins with, after `const` or not, and the word
behind it. -/
def declared? (line : List Char) : Option (ValueType × String) :=
  ValueType.all.findSome? fun type =>
    (after? (type.cpp.toList ++ [' ']) ((after? "const ".toList line).getD line)).map
      fun rest => (type, String.ofList (rest.takeWhile isWordChar))

/-- What a line outside of functions is. For a function it is the first line
only. -/
def ofLine? (line : String) : Option Item :=
  if includeMark.isPrefixOf line.toList then some (.inclusion line)
  else if Braces.spaceWord.isPrefixOf line.toList then some (.space line)
  else
    match declared? line.toList, line.toList.getLast? with
    | some (type, name), some ';' => some (.declaration type name line)
    | some (type, name), some '\x7b' => some (.definition type name [line])
    | _, _ => none

/-- **The items that some lines hold**, when a function may be open with the
lines that were seen of it. A function is closed by a brace alone on its
line. -/
def ofLines : Option (ValueType × String × List String) → List String → List Item
  | _, [] => []
  | none, line :: rest =>
    match ofLine? line with
    | some (.definition type name lines) => ofLines (some (type, name, lines)) rest
    | some item => item :: ofLines none rest
    | none => ofLines none rest
  | some (type, name, lines), line :: rest =>
    if line = "\x7d" then .definition type name (lines ++ [line]) :: ofLines none rest
    else ofLines (some (type, name, lines ++ [line])) rest

/-- The items of a text. -/
def ofText (code : String) : List Item := ofLines none (Lines.ofText code)

/-! ## Items of a program -/

/-- The item of an imported library. -/
def ofImport (name : String) : Item := .inclusion (includeLine (headerFile name))

/-- The item of a namespace. -/
def ofSpace (name : String) : Item := .space ("namespace " ++ name ++ " \x7b")

/-- The item of a variable. -/
def ofVariable (names : Names) (v : Declaration) : Item :=
  .declaration v.type v.name (Cpp.declaration names v)

/-- The item of a function. -/
def ofFunction (names : Names) (s : Signature) (body : List Node) : Item :=
  .definition s.returnType s.name
    ((nodeLines names 0 (.function s body)).map fun line => String.ofList line.chars)

/-- **What a node has to become in a header**, if it is one of those that a
library may have. -/
def ofNode? (names : Names) : Node → Option Item
  | .useLibrary name _ => some (ofImport name)
  | .openNamespace name => some (ofSpace name)
  | .declare v => some (ofVariable names v)
  | .function s body => some (ofFunction names s body)
  | _ => none

end Item

/-! ## Lines as they are read back -/

/-- A line as it is read back from a text. -/
def Line.readBack (line : Line) : String := String.ofList (Lines.dropReturn line.chars)

/-- A line is read back as it was written, unless it ends in a carriage
return. -/
theorem Line.readBack_of_endsIn {text : String} {c : Char} (h : EndsIn c text) (hc : c ≠ '\r')
    (depth : Nat) : (Line.mk depth text).readBack = String.ofList (Line.mk depth text).chars := by
  have hlast : (Line.mk depth text).chars.getLast? = some c := by
    rw [Line.chars, List.getLast?_append, show text.toList.getLast? = some c from h]
    rfl
  rw [Line.readBack, Lines.dropReturn, hlast, if_neg fun heq => hc (Option.some.inj heq)]

theorem Line.readBack_flush {text : String} {c : Char} (h : EndsIn c text) (hc : c ≠ '\r') :
    (Line.flush text).readBack = text := by
  rw [Line.flush, readBack_of_endsIn h hc]
  exact String.ofList_toList

/-- A line inside of a block is no brace at the margin, since it begins with
blanks. -/
theorem Line.ofList_chars_ne_brace {line : Line} (h : 0 < line.depth) :
    String.ofList line.chars ≠ "\x7d" := by
  obtain ⟨depth, hdepth⟩ := Nat.exists_eq_succ_of_ne_zero h.ne'
  intro heq
  have hchars : line.chars = ['\x7d'] := by
    rw [← String.toList_ofList (l := line.chars), heq]
    rfl
  rw [chars, toList_indentation, hdepth, Nat.succ_eq_add_one, Nat.mul_succ,
    List.replicate_succ] at hchars
  cases hchars

/-- The lines of a body are read back as they were written: none of them ends
in a carriage return. -/
theorem readBack_of_mem_bodyLines (names : Names) (nodes : List Node) {depth : Nat} {line : Line}
    (h : line ∈ bodyLines names depth nodes) : line.readBack = String.ofList line.chars := by
  obtain ⟨depth', text⟩ := line
  obtain ⟨-, rfl | ⟨node, hwritten, rfl⟩⟩ := mem_bodyLines names nodes h
  · exact Line.readBack_of_endsIn (show EndsIn '\x7d' "\x7d" from rfl) (by decide) depth'
  · refine Line.readBack_of_endsIn (endsIn_line names hwritten) ?_ depth'
    unfold lastChar
    split
    · decide
    · split <;> decide

/-! ## Lines that hold items -/

namespace Item

/-- **Lines hold some items**, whatever comes after them. -/
def Reads (lines : List Line) (items : List Item) : Prop :=
  ∀ rest, ofLines none (lines.map Line.readBack ++ rest) = items ++ ofLines none rest

namespace Reads

variable {line : Line} {lines lines' : List Line} {item : Item} {items items' : List Item}

theorem append (h : Reads lines items) (h' : Reads lines' items') :
    Reads (lines ++ lines') (items ++ items') := by
  intro rest
  rw [List.map_append, List.append_assoc, h, h', List.append_assoc]

theorem skip (h : ofLine? line.readBack = none) : Reads [line] [] := by
  intro rest
  rw [List.map_singleton, List.singleton_append, ofLines, h]
  rfl

/-- A line that is an item of its own. A function is none: its item goes on up
to the closing brace. -/
theorem single (h : ofLine? line.readBack = some item) (hkind : item.kind ≠ .definition) :
    Reads [line] [item] := by
  intro rest
  rw [List.map_singleton, List.singleton_append, ofLines, h]
  cases item with
  | definition => exact absurd rfl hkind
  | _ => rfl

theorem skipAll (h : ∀ line ∈ lines, ofLine? line.readBack = none) : Reads lines [] := by
  induction lines with
  | nil => exact fun _ => rfl
  | cons line lines ih =>
    obtain ⟨hline, hlines⟩ := List.forall_mem_cons.mp h
    exact (skip hline).append (ih hlines)

theorem flatMap {α : Type} {xs : List α} {f : α → List Line} {g : α → Item}
    (h : ∀ x ∈ xs, Reads (f x) [g x]) : Reads (xs.flatMap f) (xs.map g) := by
  induction xs with
  | nil => exact fun _ => rfl
  | cons x xs ih =>
    obtain ⟨hx, hxs⟩ := List.forall_mem_cons.mp h
    exact hx.append (ih hxs)

theorem map {α : Type} {xs : List α} {f : α → Line} {g : α → Item}
    (h : ∀ x ∈ xs, Reads [f x] [g x]) : Reads (xs.map f) (xs.map g) := by
  rw [List.map_eq_flatMap]
  exact .flatMap h

theorem paragraph (h : Reads lines items) : Reads (Cpp.paragraph lines) items := by
  unfold Cpp.paragraph
  split
  · next hempty =>
    rw [← List.isEmpty_iff.mp hempty]
    exact h
  · rw [← List.append_nil items]
    exact h.append (skip rfl)

end Reads

/-! ## Lines that declare -/

theorem declared?_type (type : ValueType) (rest : List Char) :
    declared? (type.cpp.toList ++ ' ' :: rest) =
      some (type, String.ofList (rest.takeWhile isWordChar)) := by
  cases type <;> rfl

theorem declared?_const (type : ValueType) (rest : List Char) :
    declared? ("const ".toList ++ (type.cpp.toList ++ ' ' :: rest)) =
      some (type, String.ofList (rest.takeWhile isWordChar)) := by
  cases type <;> rfl

theorem takeWhile_word {name : String} (hname : ∀ c ∈ name.toList, isWordChar c = true) {c : Char}
    (hc : isWordChar c = false) (rest : List Char) :
    String.ofList ((name.toList ++ c :: rest).takeWhile isWordChar) = name := by
  rw [List.takeWhile_append_of_pos hname, List.takeWhile_cons_of_neg (by simp [hc]),
    List.append_nil, String.ofList_toList]

theorem declared?_declaration (names : Names) {v : Declaration}
    (hname : ∀ c ∈ v.name.toList, isWordChar c = true) :
    declared? (Cpp.declaration names v).toList = some (v.type, v.name) := by
  obtain ⟨c, rest, hc, hline⟩ : ∃ c rest, isWordChar c = false ∧
      (Cpp.declaration names v).toList = (if v.constant then "const " else "").toList ++
        (v.type.cpp.toList ++ ' ' :: (v.name.toList ++ c :: rest)) := by
    unfold Cpp.declaration
    dsimp only
    split
    all_goals
      simp only [String.toList_append, List.append_assoc]
      exact ⟨_, _, rfl, rfl⟩
  have hdeclared : declared? (Cpp.declaration names v).toList =
      some (v.type, String.ofList ((v.name.toList ++ c :: rest).takeWhile isWordChar)) := by
    rw [hline]
    cases v.constant with
    | true => exact declared?_const _ _
    | false => exact declared?_type _ _
  rw [hdeclared, takeWhile_word hname hc]

theorem declared?_functionHead {s : Signature} (hname : ∀ c ∈ s.name.toList, isWordChar c = true) :
    declared? (functionHead s).toList = some (s.returnType, s.name) := by
  have hline : ∃ rest, (functionHead s).toList =
      s.returnType.cpp.toList ++ ' ' :: (s.name.toList ++ '(' :: rest) := by
    unfold functionHead
    simp only [String.toList_append, List.append_assoc]
    exact ⟨_, rfl⟩
  obtain ⟨rest, hline⟩ := hline
  rw [hline, declared?_type, takeWhile_word hname rfl]

/-- A line that declares something is told by its end: a semicolon ends a
variable, and a left brace the head of a function. -/
theorem ofLine?_of_declared? {line : String} {type : ValueType} {name : String}
    (hword : BeginsWord line) (hspace : ¬StartsIn 'n' line)
    (h : declared? line.toList = some (type, name)) :
    (EndsIn ';' line → ofLine? line = some (.declaration type name line)) ∧
      (EndsIn '\x7b' line → ofLine? line = some (.definition type name [line])) := by
  have hinclude : includeMark.isPrefixOf line.toList = false := by
    refine Bool.eq_false_iff.mpr fun hmark => ?_
    exact (Line.isCode_of_beginsWord hword).not_include (List.isPrefixOf_iff_prefix.mp hmark)
  have hopen : Braces.spaceWord.isPrefixOf line.toList = false := by
    refine Bool.eq_false_iff.mpr fun hmark => hspace ?_
    obtain ⟨rest, hrest⟩ := List.isPrefixOf_iff_prefix.mp hmark
    rw [StartsIn, ← hrest]
    rfl
  refine ⟨fun hend => ?_, fun hend => ?_⟩
  all_goals
    unfold EndsIn at hend
    rw [ofLine?, hinclude, hopen, h, hend]
    rfl

/-! ## The items of each section -/

theorem reads_declaration (names : Names) {v : Declaration}
    (hname : ∀ c ∈ v.name.toList, isWordChar c = true) :
    Reads [.flush (Cpp.declaration names v)] [ofVariable names v] := by
  have hend := endsIn_declaration names v
  refine .single ?_ (by rintro ⟨⟩)
  have hspace : ¬StartsIn 'n' (lineText names (.declare v)) := not_startsIn_line names rfl
  rw [Line.readBack_flush hend (by decide)]
  exact (ofLine?_of_declared? (beginsWord_declaration names v) hspace
    (declared?_declaration names hname)).1 hend

/-- Lines inside of an open function, up to the brace that closes it. By
induction on the lines. -/
theorem ofLines_open (type : ValueType) (name : String) {inside : List String}
    (h : ∀ line ∈ inside, line ≠ "\x7d") (seen rest : List String) :
    ofLines (some (type, name, seen)) (inside ++ "\x7d" :: rest) =
      .definition type name (seen ++ inside ++ ["\x7d"]) :: ofLines none rest := by
  induction inside generalizing seen with
  | nil =>
    rw [List.nil_append, List.append_nil, ofLines, if_pos rfl]
  | cons line inside ih =>
    obtain ⟨hline, hinside⟩ := List.forall_mem_cons.mp h
    rw [List.cons_append, ofLines, if_neg hline, ih hinside, List.append_assoc seen]
    rfl

/-- The lines of a function, if its first and last are taken as they are: the
head, those of the body, and the closing brace. -/
theorem map_functionLines {f : Line → String} (names : Names) (s : Signature) (body : List Node)
    (hhead : f ⟨0, functionHead s⟩ = functionHead s) (hlast : f ⟨0, "\x7d"⟩ = "\x7d") :
    (nodeLines names 0 (.function s body)).map f =
      functionHead s :: ((bodyLines names 1 body).map f ++ ["\x7d"]) := by
  rw [nodeLines, List.map_cons, List.map_append, List.map_singleton, hhead, hlast]

theorem reads_function (names : Names) {s : Signature} (body : List Node)
    (hname : ∀ c ∈ s.name.toList, isWordChar c = true) :
    Reads (nodeLines names 0 (.function s body)) [ofFunction names s body] := by
  intro rest
  have hend : EndsIn '\x7b' (functionHead s) := EndsIn.append _ (by rfl)
  have hword : BeginsWord (functionHead s) := by
    unfold functionHead
    simp only [String.append_assoc]
    exact (beginsWord_type _).append _
  have hspace : ¬StartsIn 'n' (lineText names (.function s body)) := not_startsIn_line names rfl
  have hhead := (ofLine?_of_declared? hword hspace (declared?_functionHead hname)).2 hend
  have hinside : (bodyLines names 1 body).map Line.readBack =
      (bodyLines names 1 body).map fun line => String.ofList line.chars :=
    List.map_congr_left fun line hline => readBack_of_mem_bodyLines names body hline
  have hne : ∀ line ∈ (bodyLines names 1 body).map fun line => String.ofList line.chars,
      line ≠ "\x7d" := by
    intro line hline
    obtain ⟨line, hmem, rfl⟩ := List.mem_map.mp hline
    exact Line.ofList_chars_ne_brace (mem_bodyLines names body hmem).1
  have hbrace : EndsIn '\x7d' "\x7d" := rfl
  rw [ofFunction, map_functionLines names s body (Line.readBack_flush hend (by decide))
      (Line.readBack_flush hbrace (by decide)),
    map_functionLines names s body String.ofList_toList String.ofList_toList, hinside,
    List.cons_append, List.append_assoc, List.singleton_append, ofLines, hhead]
  exact ofLines_open _ _ hne _ _

theorem reads_bannerLines : Reads (bannerLines .library) [] :=
  .skipAll (by decide +kernel)

theorem reads_inclusion (name : String) :
    Reads [.flush ("#include \"" ++ name ++ ".hpp\"")] [ofImport name] := by
  have hend : EndsIn '\"' ("#include \"" ++ name ++ ".hpp\"") := EndsIn.append _ (by rfl)
  have hline : "#include \"" ++ name ++ ".hpp\"" = includeLine (headerFile name) := by
    rw [includeLine, headerFile, String.append_assoc, String.append_assoc, String.append_assoc]
    rfl
  have hmark : includeMark.isPrefixOf (includeLine (headerFile name)).toList = true := by
    rw [includeLine, String.toList_append, String.toList_append, List.append_assoc]
    exact List.isPrefixOf_iff_prefix.mpr (List.prefix_append _ _)
  refine .single ?_ (by rintro ⟨⟩)
  rw [Line.readBack_flush hend (by decide), hline, ofLine?, if_pos hmark, ofImport]

/-- Lines inside of a namespace hold the items that they hold outside of it,
after the one of the namespace itself, if there is one. -/
theorem reads_inNamespace {names : Names} (hnames : names.IsWord) {lines : List Line}
    {items : List Item} (h : Reads lines items) :
    Reads (inNamespace names.space? lines) (names.space?.toList.map ofSpace ++ items) := by
  unfold inNamespace
  split
  · next hspace =>
    rw [hspace]
    exact h
  · next space hspace =>
    rw [hspace]
    obtain ⟨hne, hword⟩ := hnames space hspace
    have hopen : Reads [.flush ("namespace " ++ space ++ " \x7b")] [ofSpace space] := by
      have hend : EndsIn '\x7b' ("namespace " ++ space ++ " \x7b") := EndsIn.append _ (by rfl)
      refine .single ?_ (by rintro ⟨⟩)
      rw [Line.readBack_flush hend (by decide), ofLine?, String.toList_append,
        String.toList_append]
      rfl
    have hclose : Reads [.flush ("\x7d // namespace " ++ space)] [] := by
      have hend : EndsIn (space.toList.getLast hne) ("\x7d // namespace " ++ space) :=
        EndsIn.append _ (List.getLast?_eq_some_getLast hne)
      refine .skip ?_
      rw [Line.readBack_flush hend, ofLine?, String.toList_append]
      · rfl
      · intro hreturn
        have hlast := hword _ (List.getLast_mem hne)
        rw [hreturn] at hlast
        cases hlast
    have hblank : Reads [.blank] [] := .skip rfl
    have hinside := (hopen.append hblank).append h
    rw [List.append_nil] at hinside
    have hwhole := hinside.append (hclose.append hblank)
    rw [List.append_nil, List.append_nil] at hwhole
    exact hwhole

end Item

end Cpp

open Cpp

namespace Program

/-- The items of a header, section by section. -/
def headerItems (p : Program) : List Item :=
  p.imports.map Item.ofImport ++ (p.namespace?.toList.map Item.ofSpace ++
    ((declarations p.nodes).map (Item.ofVariable (Names.ofProgram p)) ++
      p.functions.map fun f => Item.ofFunction (Names.ofProgram p) f.1 f.2))

variable {p : Program} {d : Dialect} {warnings : List (String × String)}

/-- **What is found in the header of an acceptable library**: the items of its
imports, its namespace, its variables and its functions, and nothing else. -/
theorem Accepted.reads_programLines (h : p.Accepted d.vocabulary d true warnings) :
    Item.Reads (programLines .library p) p.headerItems := by
  have hnames := h.isWord
  obtain ⟨-, _, _, -, -, haccepts⟩ := h
  have himports : Item.Reads (importLines p) (p.imports.map Item.ofImport) :=
    .paragraph (.map fun name _ => Item.reads_inclusion name)
  have hvariables : Item.Reads (variableLines .library (Names.ofProgram p) p)
      ((declarations p.nodes).map (Item.ofVariable (Names.ofProgram p))) := by
    refine .paragraph (.map fun v hv => Item.reads_declaration _ ?_)
    obtain ⟨node, hmem, hnode⟩ := List.mem_filterMap.mp hv
    cases node with
    | declare v =>
      obtain rfl := Option.some.inj hnode
      obtain ⟨_, _, -, -, hname, -⟩ := haccepts.checked_of_mem hmem
      exact Lexeme.identifier_word hname
    | _ => cases hnode
  have hfunctions : Item.Reads (functionLines (Names.ofProgram p) p)
      (p.functions.map fun f => Item.ofFunction (Names.ofProgram p) f.1 f.2) := by
    refine .flatMap fun f hf => .paragraph (Item.reads_function _ f.2 ?_)
    obtain ⟨node, hmem, hnode⟩ := List.mem_filterMap.mp hf
    cases node with
    | function s body =>
      obtain rfl := Option.some.inj hnode
      obtain ⟨_, _, -, -, hname, -⟩ := haccepts.checked_of_mem hmem
      exact Lexeme.identifier_word hname
    | _ => cases hnode
  have hspace := Item.reads_inNamespace hnames (hvariables.append hfunctions)
  have hwhole := (Item.reads_bannerLines.append himports).append hspace
  have hmain : mainLines .library (Names.ofProgram p) p = [] := rfl
  unfold programLines
  dsimp only
  rw [hmain, List.append_nil]
  exact hwhole

/-- The items of the text of a header are those of its lines: no line has a
line feed inside, so splitting the text gives the lines back. -/
theorem Accepted.ofText_cpp (h : p.Accepted d.vocabulary d true warnings) :
    Item.ofText (p.cpp .library) = p.headerItems := by
  have hreads := h.reads_programLines []
  rw [Item.ofText, Program.cpp, ofText_render (h.nested_programLines .library).single_of_mem]
  rw [List.append_nil] at hreads
  exact hreads.trans (List.append_nil _)

/-! ## Items and nodes -/

/-- The namespaces that nodes open: only the first node does. -/
theorem WellShaped.spaces_eq (h : p.WellShaped) :
    (p.nodes.filterMap fun | .openNamespace name => some name | _ => none) =
      p.namespace?.toList := by
  obtain ⟨nodes⟩ := p
  cases nodes with
  | nil => rfl
  | cons first rest =>
    have hrest : (rest.filterMap fun | .openNamespace name => some name | _ => none) = [] := by
      refine List.filterMap_eq_nil_iff.mpr fun node hnode => ?_
      obtain ⟨i, hi⟩ := List.mem_iff_getElem?.mp hnode
      cases node with
      | openNamespace name =>
        have hat : Program.at? ⟨first :: rest⟩ [i + 1] = some (.openNamespace name) := hi
        cases h.space_first _ _ hat
      | _ => rfl
    rw [List.filterMap_cons, hrest]
    cases first <;> rfl

/-- The items of one kind that the nodes of a unit stand for. -/
def itemsOf (p : Program) (kind : Item.Kind) : List Item :=
  (p.nodes.filterMap (Item.ofNode? (Names.ofProgram p))).filter (·.kind = kind)

/-- **The sections of a header are the kinds of its items.** In each section
they are in the order of the nodes. -/
theorem WellShaped.headerItems_eq (h : p.WellShaped) :
    p.headerItems = p.itemsOf .inclusion ++
      (p.itemsOf .space ++ (p.itemsOf .declaration ++ p.itemsOf .definition)) := by
  unfold headerItems itemsOf
  rw [← h.spaces_eq, imports_eq, declarations, functions]
  simp only [List.map_filterMap, List.filter_filterMap]
  refine congrArg₂ _ ?_ (congrArg₂ _ ?_ (congrArg₂ _ ?_ ?_))
  all_goals
    refine List.filterMap_congr fun node _ => ?_
    cases node <;> rfl

theorem filter_itemsOf (p : Program) (kind kind' : Item.Kind) :
    (p.itemsOf kind).filter (·.kind = kind') = if kind = kind' then p.itemsOf kind else [] := by
  unfold itemsOf
  rw [List.filter_filter]
  split
  · next heq =>
    subst heq
    exact List.filter_congr fun item _ => Bool.and_self _
  · next hne =>
    refine List.filter_eq_nil_iff.mpr fun item _ hitem => ?_
    obtain ⟨hleft, hright⟩ := Bool.and_eq_true_iff.mp hitem
    exact hne ((of_decide_eq_true hright).symm.trans (of_decide_eq_true hleft))

/-- Lists with the same items of each kind have the same items, since each
item has one kind and is counted there. -/
theorem perm_of_filter_kind {items items' : List Item}
    (h : ∀ kind, items.filter (·.kind = kind) = items'.filter (·.kind = kind)) :
    items.Perm items' := by
  refine List.perm_iff_count.mpr fun item => ?_
  have hcount (items : List Item) :
      (items.filter (·.kind = item.kind)).count item = items.count item :=
    List.count_filter (decide_eq_true rfl)
  rw [← hcount items, h, hcount]

/-- Every part of a library is an item. -/
theorem exists_ofNode? (names : Names) {node : Node} (h : node.isLibraryPart = true) :
    ∃ item, Item.ofNode? names node = some item := by
  cases node <;> first | exact ⟨_, rfl⟩ | cases h

/-- **A header with all of a library**: what it holds is what the nodes of the
library stand for. -/
structure WholeHeader (p : Program) (code : String) : Prop where
  /-- Every node is an inclusion, a namespace, a declaration or a definition. -/
  item_of_node : ∀ node ∈ p.nodes, ∃ item, Item.ofNode? (Names.ofProgram p) node = some item
  /-- Of each kind the header holds the items of the nodes, each of them once, in the
  order of the source. -/
  of_kind : ∀ kind, (Item.ofText code).filter (·.kind = kind) =
    (p.nodes.filterMap (Item.ofNode? (Names.ofProgram p))).filter (·.kind = kind)
  /-- There are as many items as nodes. -/
  length_eq : (Item.ofText code).length = p.nodes.length

theorem Accepted.wholeHeader (h : p.Accepted d.vocabulary d true warnings) :
    p.WholeHeader (p.cpp .library) := by
  have hshown : ∀ node ∈ p.nodes, ∃ item, Item.ofNode? (Names.ofProgram p) node = some item :=
    fun node hnode => exists_ofNode? _ (h.1 rfl node hnode)
  have hkind : ∀ kind, p.headerItems.filter (·.kind = kind) = p.itemsOf kind := by
    intro kind
    rw [h.wellShaped.headerItems_eq]
    simp only [List.filter_append, filter_itemsOf]
    cases kind <;> simp
  refine ⟨hshown, fun kind => ?_, ?_⟩
  · rw [h.ofText_cpp]
    exact hkind kind
  · rw [h.ofText_cpp, (perm_of_filter_kind hkind).length_eq]
    refine List.filterMap_length_eq_length.mpr fun node hnode => ?_
    obtain ⟨item, hitem⟩ := hshown node hnode
    rw [hitem]
    rfl

/-- **Nothing of a library is dropped.** Every node of a library that is read
is an import, a namespace, a variable or a function, and the header of a
library has an item for each of them. -/
theorem ofText_wholeHeader (d : Dialect) :
    (∀ tokens p warnings, ofTokens d true tokens = .ok (p, warnings) →
      ∀ node ∈ p.nodes, node.isLibraryPart = true) ∧
    ∀ source p warnings, ofText d true source = .ok (p, warnings) →
      p.WholeHeader (p.cpp .library) := by
  constructor
  · intro tokens p warnings h
    exact (accepted_of_ofTokens (V := .full) (fun _ _ _ => trivial) h).1 rfl
  · intro source p warnings h
    exact (accepted_of_ofText h).wholeHeader

/-- A library with its imports and variables between and after its
functions. -/
def mixedLibrary : Program :=
  ⟨[.openNamespace "m",
    .function ⟨.i32, "f", [("n", .i32)]⟩
      [.ifThen ⟨"n", .equal, "1"⟩ [.giveBack (some "n")], .endIf, .giveBack (some "1")],
    .useLibrary "io" ⟨62, 3, 8, 5⟩, .declare ⟨.i32, "k", .value "1", true⟩,
    .function ⟨.empty, "g", []⟩ [.output "k" none],
    .useLibrary "os" ⟨108, 3, 13, 5⟩, .declare ⟨.i32, "y", .call ⟨"f", ["k"]⟩, true⟩]⟩

def mixedSource : String :=
  "init @m\nfnc i32 f : i32 n :\nif n == 1\nrtn n\nend\nrtn 1\nend\nlib @io\ndec i32 k 1\n" ++
    "fnc empty g : :\nout k\nend\nlib @os\ndec i32 y f : k :"

theorem ofText_wholeHeader_mixed :
    (∃ tokens, ofTokens .maple true tokens = .ok (mixedLibrary, []) ∧
      ∀ node ∈ mixedLibrary.nodes, node.isLibraryPart = true) ∧
    ofText .maple true mixedSource = .ok (mixedLibrary, []) ∧
      mixedLibrary.WholeHeader (mixedLibrary.cpp .library) := by
  have hread : ofText .maple true mixedSource = .ok (mixedLibrary, []) := by decide +kernel
  obtain ⟨hparts, hwhole⟩ := ofText_wholeHeader .maple
  refine ⟨?_, hread, hwhole _ _ _ hread⟩
  cases hscan : Token.scan .maple mixedSource with
  | error e =>
    rw [ofText, hscan] at hread
    cases hread
  | ok tokens =>
    rw [ofText, hscan] at hread
    exact ⟨tokens, hread, hparts _ _ _ hread⟩

end Program

end MapleCompiler
