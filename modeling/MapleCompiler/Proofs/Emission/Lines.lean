import MapleCompiler.Proofs.Emission.Braces
import MapleCompiler.Proofs.Scoping.Blocks
import MapleCompiler.Proofs.Scoping.Resolution

/-!
# The line of a node

A line of generated code is written from fixed texts, names and literals. A text
is *inline* if its braces are closed inside of it (`Inline`). Names and literals
are, since they have no braces at all: scanning a text gives no lexeme with a
brace that could be an operand. The only braces inside of a line are those
around the values of an array.

What is left are the braces at the ends of a line. They are there for the
blocks that the node closes and opens (`matches_line`), so the line fits where
the node may stand (`fits_line`).
-/

namespace MapleCompiler

theorem Literal.digits_of_classify {x : String} {literal : Literal}
    (h : classify x = some literal) :
    (x = "true" ∨ x = "false") ∨ ∀ c ∈ x.toList, c.isDigit = true ∨ c = '.' := by
  obtain ⟨-, hbool⟩ | ⟨-, -, hdigits⟩ | ⟨-, whole, fraction, hx, -, hwhole, -, hfraction⟩ :=
    classify_cases h
  · exact .inl hbool
  · exact .inr fun c hc => .inl (hdigits c hc)
  · right
    rw [hx]
    exact List.forall_mem_append.mpr ⟨fun c hc => .inl (hwhole c hc),
      List.forall_mem_cons.mpr ⟨.inr rfl, fun c hc => .inl (hfraction c hc)⟩⟩

namespace Cpp

/-! ## Texts that keep the open braces -/

/-- **A text whose braces are closed inside of it.** -/
def Inline (x : String) : Prop := ∀ o, Matches o x o

variable {x y : String}

theorem Inline.append (hx : Inline x) (hy : Inline y) : Inline (x ++ y) :=
  fun o => (hx o).append (hy o)

theorem inline_of_forall (h : ∀ c ∈ x.toList, c ≠ '\n' ∧ c ≠ '\x7b' ∧ c ≠ '\x7d') :
    Inline x := by
  intro o
  unfold Matches
  generalize x.toList = cs at h
  induction cs with
  | nil => rfl
  | cons c cs ih =>
    obtain ⟨⟨hfeed, hleft, hright⟩, hcs⟩ := List.forall_mem_cons.mp h
    have hc : matchBrace? o c = some o := by
      unfold matchBrace?
      rw [if_neg hfeed, if_neg hleft, if_neg hright]
    rw [List.foldlM_cons, hc]
    exact ih hcs

theorem inline_of_word (h : ∀ c ∈ x.toList, isWordChar c = true) : Inline x :=
  inline_of_forall fun c hc => Braces.plain_of_isWordChar (h c hc)

theorem inline_commaSeparated {items : List String} (h : ∀ x ∈ items, Inline x) :
    Inline (commaSeparated items) := by
  induction items with
  | nil => exact fun _ => rfl
  | cons item items ih =>
    obtain ⟨hitem, hitems⟩ := List.forall_mem_cons.mp h
    cases items with
    | nil =>
      rw [commaSeparated, String.intercalate_singleton]
      exact hitem
    | cons next items =>
      have hcomma : Inline ", " := fun _ => rfl
      unfold commaSeparated
      rw [String.intercalate_cons_cons]
      exact (hitem.append hcomma).append (ih hitems)

/-- **Literals have no braces.** They are truth values, or are made of digits
and a point. -/
theorem inline_of_classify {literal : Literal} (h : Literal.classify x = some literal) :
    Inline x := by
  obtain htruth | hnumber := Literal.digits_of_classify h
  · obtain rfl | rfl := htruth <;> exact fun _ => rfl
  · refine inline_of_forall fun c hc => ⟨?_, ?_, ?_⟩
    all_goals
      rintro rfl
      obtain hdigit | hpoint := hnumber _ hc
      · cases hdigit
      · cases hpoint

/-- **Operands have no braces.** They are names, which are words, or
literals. -/
theorem inline_operand {d : Dialect} (h : d.vocabulary.Operand x) : Inline x := by
  obtain ⟨kind, hkind, hword⟩ := h
  cases kind with
  | identifier => exact inline_of_word hword.identifier_word
  | _ =>
    obtain ⟨literal, hliteral⟩ := Lexeme.exists_classify hword hkind
    exact inline_of_classify hliteral

theorem inline_known {d : Dialect} {s : Scope} (h : d.vocabulary.Known s x) : Inline x := by
  obtain ⟨kind, hkind, hword, -⟩ := h
  exact inline_operand ⟨kind, hkind, hword⟩

theorem inline_identifier {d : Dialect} (h : Lexeme d .identifier x) : Inline x :=
  inline_of_word h.identifier_word

/-! ## The braces of the line of a node -/

theorem inline_element {name : String} {index? : Option String} (hname : Inline name)
    (hindex : ∀ x, index? = some x → Inline x) : Inline (element name index?) := by
  cases index? with
  | none => exact hname
  | some index =>
    have hleft : Inline "[" := fun _ => rfl
    have hright : Inline "]" := fun _ => rfl
    exact ((hname.append hleft).append (hindex index rfl)).append hright

theorem inline_condition {d : Dialect} {s : Scope} {c : Condition}
    (h : Node.ConditionChecked d.vocabulary s c) : Inline (condition c) := by
  have hblank : Inline " " := fun _ => rfl
  have hmark : Inline c.op.mark := by cases c.op <;> exact fun _ => rfl
  exact ((((inline_known h.1).append hblank).append hmark).append hblank).append
    (inline_known h.2.2)

theorem inline_plainCall {d : Dialect} {s : Scope} {c : Call}
    (h : Node.CallChecked d.vocabulary s c) : Inline (plainCall c) := by
  have hleft : Inline "(" := fun _ => rfl
  have hright : Inline ")" := fun _ => rfl
  have harguments := inline_commaSeparated fun x hx => inline_known (h.2 x hx)
  exact (((inline_identifier h.1).append hleft).append harguments).append hright

/-- The namespace of the unit, if there is one, is a word. -/
def Names.IsWord (names : Names) : Prop :=
  ∀ space, names.space? = some space →
    space.toList ≠ [] ∧ ∀ c ∈ space.toList, isWordChar c = true

theorem Names.IsWord.wordy {names : Names} (h : names.IsWord) : names.Wordy :=
  fun space hspace => beginsWord_of_word rfl (h space hspace).1 (h space hspace).2

theorem inline_call {d : Dialect} {s : Scope} {c : Call} {names : Names} (hnames : names.IsWord)
    (h : Node.CallChecked d.vocabulary s c) : Inline (call names c) := by
  have hplain := inline_plainCall h
  unfold call
  split
  · next space hspace =>
    split
    · have hcolons : Inline "::" := fun _ => rfl
      exact ((inline_of_word (hnames space hspace).2).append hcolons).append hplain
    · exact hplain
  · exact hplain

theorem inline_type (type : ValueType) : Inline type.cpp := by
  cases type <;> exact fun _ => rfl

/-- The values of an array stand in braces, which are closed on the same
line. -/
theorem inline_declaration {d : Dialect} {s : Scope} {v : Declaration} {names : Names}
    (hnames : names.IsWord) (hname : Lexeme d .identifier v.name)
    (h : Node.Initializes d.vocabulary s v.type v.initializer) :
    Inline (declaration names v) := by
  obtain ⟨type, name, initializer, constant⟩ := v
  have hblank : Inline " " := fun _ => rfl
  have heq : Inline " = " := fun _ => rfl
  have hend : Inline ";" := fun _ => rfl
  have hconst : Inline (if constant then "const " else "") := by
    cases constant <;> exact fun _ => rfl
  have hhead := ((hconst.append (inline_type type)).append hblank).append (inline_identifier hname)
  cases initializer with
  | value x => exact ((hhead.append heq).append (inline_operand h.1)).append hend
  | call c => exact ((hhead.append heq).append (inline_call hnames h.1)).append hend
  | array size values =>
    obtain ⟨-, -, -, hvalues⟩ := h
    have hsize : Inline (toString size) :=
      inline_operand ⟨.number, rfl, Lexeme.toString (d := d) size⟩
    have hbracket : Inline "[" := fun _ => rfl
    have hlist : Inline (commaSeparated values) := by
      refine inline_commaSeparated fun x hx => ?_
      obtain ⟨⟨kind, hkind, hword⟩, -⟩ := hvalues x hx
      obtain ⟨literal, hliteral⟩ := Lexeme.exists_classify hword hkind
      exact inline_of_classify hliteral
    intro o
    have hleft : Matches o "] = \x7b" (.block :: o) := rfl
    have hright : Matches (.block :: o) "\x7d;" o := rfl
    exact ((((hhead.append hbracket).append hsize o).append hleft).append (hlist _)).append hright

theorem inline_assignedValue {d : Dialect} {F : Facts} {type : ValueType} {value : AssignedValue}
    (h : Node.Assigns d.vocabulary F.scope type value) (hF : F.ArraysFit) :
    Inline (assignedValue value) := by
  cases value with
  | plain x => exact inline_operand h.1
  | copied array i literal =>
    obtain ⟨class?, hclass, -⟩ := h.takes_copied hF
    exact inline_of_classify hclass
  | element array x =>
    refine inline_element (inline_operand h.1) fun y hy => ?_
    obtain rfl := Option.some.inj hy
    exact inline_identifier h.2.1

theorem inline_assignment {d : Dialect} {F : Facts} {a : Assignment} {type : ValueType}
    (htarget : Lexeme d .identifier a.target)
    (hindex : Node.Assignable d.vocabulary F.scope type a.target a.index?)
    (hvalue : Node.Assigns d.vocabulary F.scope type a.value) (hF : F.ArraysFit) :
    Inline (assignment a) := by
  have heq : Inline " = " := fun _ => rfl
  have hend : Inline ";" := fun _ => rfl
  have helement : Inline (element a.target a.index?) := by
    refine inline_element (inline_identifier htarget) fun x hx => ?_
    rw [hx] at hindex
    obtain ⟨kind, hkind, hword, -⟩ := hindex
    exact inline_operand ⟨kind, hkind, hword⟩
  exact ((helement.append heq).append (inline_assignedValue hvalue hF)).append hend

theorem inline_calculation {d : Dialect} {s : Scope} {c : Calculation}
    (hleft : d.vocabulary.Known s c.left) (hright : d.vocabulary.Known s c.right)
    (h : Node.Stored d.vocabulary s c) : Inline (calculation c) := by
  have hblank : Inline " " := fun _ => rfl
  have heq : Inline " = " := fun _ => rfl
  have hinto : Inline "= " := fun _ => rfl
  have hend : Inline ";" := fun _ => rfl
  have hmark : Inline c.op.mark := by cases c.op <;> exact fun _ => rfl
  have hl := inline_known hleft
  have hr := inline_known hright
  unfold Node.Stored at h
  unfold calculation
  split
  · next destination hd =>
    rw [hd] at h
    have hname := inline_identifier h.2.1
    exact ((((((hname.append heq).append hl).append hblank).append hmark).append hblank).append
      hr).append hend
  · exact ((((hl.append hblank).append hmark).append hinto).append hr).append hend

/-- **The line of a node closes and opens blocks** as the node does, and no
other braces. -/
theorem matches_line {d : Dialect} {ctx : Context} {F : Facts} {names : Names}
    (hnames : names.IsWord) {node : Node} (h : node.Checked d.vocabulary ctx F)
    (hF : F.ArraysFit) (hwritten : isWritten node = true) (o : List Brace) :
    Matches (if closesBlock node then .block :: o else o) (lineText names node)
      (if opensBlock node then .block :: o else o) := by
  have hend : Inline ";" := fun _ => rfl
  have hopen : Matches o ") \x7b" (.block :: o) := rfl
  cases node with
  | run count body =>
    have hfor : Inline "for (int run = 0; run < " := fun _ => rfl
    have hlast : Matches o "; run++) \x7b" (.block :: o) := rfl
    exact (hfor.append (inline_known h) o).append hlast
  | declare v =>
    obtain ⟨-, -, hname, -, hinitial⟩ := h
    exact inline_declaration hnames hname hinitial o
  | assign a =>
    obtain ⟨htarget, type, hindex, hvalue⟩ := h
    exact inline_assignment htarget hindex hvalue hF o
  | output name index? =>
    have hout : Inline "std::cout << " := fun _ => rfl
    have hlast : Inline " << std::endl;" := fun _ => rfl
    have helement : Inline (element name index?) := by
      refine inline_element (inline_known h.1) fun x hx => ?_
      obtain ⟨-, hprint⟩ := h
      rw [hx] at hprint
      obtain ⟨type, shape, -, kind, hkind, hword, -⟩ := hprint
      exact inline_operand ⟨kind, hkind, hword⟩
    exact ((hout.append helement).append hlast) o
  | ifThen c body =>
    have hif : Inline "if (" := fun _ => rfl
    exact (hif.append (inline_condition h) o).append hopen
  | elseIf c body =>
    have helse : Matches (.block :: o) "\x7d else if (" o := rfl
    exact (helse.append (inline_condition h.2 o)).append hopen
  | otherwise body => exact show Matches (.block :: o) "\x7d else \x7b" (.block :: o) from rfl
  | endIf => exact show Matches (.block :: o) "\x7d" o from rfl
  | loop counter start stop body =>
    obtain ⟨hcounter, -, hstart, hstop⟩ := h
    have hfor : Inline "for (int32_t " := fun _ => rfl
    have heq : Inline " = " := fun _ => rfl
    have hthen : Inline "; " := fun _ => rfl
    have hlt : Inline " < " := fun _ => rfl
    have hlast : Matches o "++) \x7b" (.block :: o) := rfl
    have hname := inline_identifier hcounter
    exact (((((((((hfor.append hname).append heq).append (inline_known hstart)).append
      hthen).append hname).append hlt).append (inline_known hstop)).append hthen).append
      hname o).append hlast
  | endLoop => exact show Matches (.block :: o) "\x7d" o from rfl
  | save name =>
    have hname := inline_identifier h.1
    have hmap : Inline backupMap := fun _ => rfl
    have hleft : Inline "[\"" := fun _ => rfl
    have hright : Inline "\"] = " := fun _ => rfl
    exact (((((hmap.append hleft).append hname).append hright).append hname).append hend) o
  | restore name =>
    have hname := inline_identifier h.1
    have hcast : Inline " = static_cast<decltype(" := fun _ => rfl
    have hmap : Inline backupMap := fun _ => rfl
    have hof : Inline ")>(" := fun _ => rfl
    have hleft : Inline "[\"" := fun _ => rfl
    have hright : Inline "\"]);" := fun _ => rfl
    exact (((((((hname.append hcast).append hname).append hof).append hmap).append hleft).append
      hname).append hright) o
  | function s body =>
    obtain ⟨-, -, hname, -, hparameters, -⟩ := h
    have hblank : Inline " " := fun _ => rfl
    have hleft : Inline "(" := fun _ => rfl
    have hlist : Inline (commaSeparated (s.parameters.map fun p => p.2.cpp ++ " " ++ p.1)) := by
      refine inline_commaSeparated fun x hx => ?_
      obtain ⟨p, hp, rfl⟩ := List.mem_map.mp hx
      exact ((inline_type p.2).append hblank).append (inline_identifier (hparameters p hp).1)
    have hhead := ((inline_type s.returnType).append hblank).append (inline_identifier hname)
    exact (((hhead.append hleft).append hlist) o).append hopen
  | giveBack value? =>
    cases value? with
    | none => exact show Matches o "return;" o from rfl
    | some value =>
      have hreturn : Inline "return " := fun _ => rfl
      exact ((hreturn.append (inline_operand (h.1 value rfl))).append hend) o
  | call c => exact ((inline_call hnames h.1).append hend) o
  | calculate c => exact inline_calculation h.2.1 h.2.2.1 h.2.2.2 o
  | useLibrary name span => cases hwritten
  | openNamespace name => cases hwritten
  | qualifiedCall library c =>
    obtain ⟨-, ⟨x, hx, rfl⟩, hcall⟩ := h
    have hcolons : Inline "::" := fun _ => rfl
    have hlibrary := inline_of_word (word_qualifiedLibrary hx).2
    exact (((hlibrary.append hcolons).append (inline_plainCall hcall)).append hend) o

theorem BeginsWord.exists_cons (h : BeginsWord x) :
    ∃ c cs, x.toList = c :: cs ∧ c ≠ ' ' ∧ c ≠ '\x7d' := by
  obtain ⟨c, hc, hx⟩ := h
  obtain ⟨cs, hcs⟩ := List.head?_eq_some_iff.mp hx
  refine ⟨c, cs, hcs, ?_, ?_⟩
  all_goals
    rintro rfl
    cases hc

/-- **The line of a node fits** in a block of its depth. Some nodes close a
block before they open one, and others do only one of the two or none. -/
theorem fits_line {d : Dialect} {ctx : Context} {F : Facts} {names : Names}
    (hnames : names.IsWord) {node : Node} (h : node.Checked d.vocabulary ctx F)
    (hF : F.ArraysFit) (hwritten : isWritten node = true) {depth : Nat} {o : List Brace}
    (hdepth : o.count .block = depth)
    (hspace : depth = 0 → ¬StartsIn 'n' (lineText names node)) :
    Line.Fits ⟨depth, lineText names node⟩ (if closesBlock node then .block :: o else o)
      (if opensBlock node then .block :: o else o) := by
  have hmatches := matches_line hnames h hF hwritten o
  have hn {c : Char} {cs : List Char} (htext : (lineText names node).toList = c :: cs) :
      depth = 0 → c ≠ 'n' := by
    rintro hzero rfl
    exact hspace hzero (congrArg List.head? htext)
  cases hcloses : closesBlock node with
  | false =>
    rw [hcloses] at hmatches
    obtain ⟨c, cs, htext, hblank, hbrace⟩ :=
      (beginsWord_line hnames.wordy h hwritten hcloses).exists_cons
    show Line.Fits ⟨depth, lineText names node⟩ o _
    refine Line.fits_of_matches htext hblank (hn htext) hmatches ?_
    rw [if_neg fun hc => hbrace hc.1]
    exact hdepth
  | true =>
    rw [hcloses] at hmatches
    have hstart : StartsIn '\x7d' (lineText names node) := by
      have hline := closes_line hnames.wordy h hwritten depth
      rw [hcloses] at hline
      exact beq_iff_eq.mp hline
    obtain ⟨cs, htext⟩ := List.head?_eq_some_iff.mp hstart
    show Line.Fits ⟨depth, lineText names node⟩ (.block :: o) _
    refine Line.fits_of_matches htext (by decide) (hn htext) hmatches ?_
    rw [if_pos ⟨rfl, rfl⟩, ← hdepth]
    exact List.count_cons_self

/-- Declarations and functions begin with a type, and no type begins as a
namespace does. -/
theorem not_startsIn_line (names : Names) {node : Node} (h : node.isLibraryPart = true) :
    ¬StartsIn 'n' (lineText names node) := by
  have hother {c : Char} {x : String} (hx : StartsIn c x) (hc : c ≠ 'n') : ¬StartsIn 'n' x :=
    fun hn => hc (Option.some.inj (hx.symm.trans hn))
  have htype (type : ValueType) : ∃ c, StartsIn c type.cpp ∧ c ≠ 'n' := by
    cases type <;> exact ⟨_, rfl, by decide⟩
  cases node with
  | declare v =>
    obtain ⟨rest, hrest⟩ := exists_declaration_eq names v
    show ¬StartsIn 'n' (declaration names v)
    rw [hrest]
    cases v.constant with
    | true =>
      have hconst : StartsIn 'c' "const " := rfl
      exact hother ((hconst.append _).append rest) (by decide)
    | false =>
      obtain ⟨c, hstart, hc⟩ := htype v.type
      show ¬StartsIn 'n' ("" ++ v.type.cpp ++ rest)
      rw [String.empty_append]
      exact hother (hstart.append rest) hc
  | function s body =>
    obtain ⟨c, hstart, hc⟩ := htype s.returnType
    show ¬StartsIn 'n' (functionHead s)
    unfold functionHead
    simp only [String.append_assoc]
    exact hother (hstart.append _) hc
  | useLibrary name span => nofun
  | openNamespace name => nofun
  | _ => cases h

/-- The line that closes a block is as deep as the line that opened it. -/
theorem fits_closing {depth : Nat} {o : List Brace} (hdepth : o.count .block = depth) :
    Line.Fits ⟨depth, "\x7d"⟩ (.block :: o) o := by
  have hmatches : Matches (.block :: o) "\x7d" o := rfl
  refine Line.fits_of_matches (c := '\x7d') rfl (by decide) (fun _ => by decide) hmatches ?_
  rw [if_pos ⟨rfl, rfl⟩, ← hdepth]
  exact List.count_cons_self

end Cpp

end MapleCompiler
