import MapleCompiler.Proofs.Scoping.Trace
import MapleCompiler.Proofs.Token.Vocabulary

/-!
# The blocks of generated code

A line of code *opens* a block if it ends in a left brace, and *closes* one if it
begins with a right brace; `} else {` does both. The rest of a block, after one
of its lines, goes on to the line that closes more than was opened since
(`Cpp.restOfBlock`). A line *sees* a declaration if it stands in the rest of the
block after it (`Cpp.Sees`): this is where the declared name may be used.

The nodes of an acceptable list close what they open, so the rest of a block
reaches past them (`Accepts.restOfBlock_traceList`).
-/

namespace MapleCompiler.Cpp

/-! ## Braces -/

namespace Line

variable (line : Line)

/-- Whether a line closes a block. -/
def closes : Bool := line.text.toList.head? == some '\x7d'

/-- Whether a line opens a block. -/
def opens : Bool := line.text.toList.getLast? == some '\x7b'

/-- **How many blocks are open after a line**, when `n` were open before it. A
line that closes more than these has no answer. -/
def nest : Nat → Option Nat
  | 0 => if line.closes then none else some (if line.opens then 1 else 0)
  | n + 1 => some ((if line.closes then n else n + 1) + if line.opens then 1 else 0)

end Line

/-- **The rest of a block**, when `n` blocks are open inside of it. -/
def restOfBlock : Nat → Trace → Trace
  | _, [] => []
  | n, e :: t =>
    match e.2.nest n with
    | some m => e :: restOfBlock m t
    | none => []

/-- **The line of the node at `σ` stands in the rest of the block** after the
line of the node at `δ`. -/
def Sees (t : Trace) (δ σ : Site) : Prop :=
  ∃ before line after, t = before ++ (some δ, line) :: after ∧ σ ∈ (restOfBlock 0 after).sites

theorem restOfBlock_cons {n m : Nat} {line : Line} (h : line.nest n = some m)
    (mark : Option Site) (t : Trace) :
    restOfBlock n ((mark, line) :: t) = (mark, line) :: restOfBlock m t := by
  rw [restOfBlock, h]

/-- A block ends before a line that closes it. What follows does not see what
was declared in it. -/
theorem restOfBlock_closes {line : Line} (h : line.closes = true) (mark : Option Site)
    (t : Trace) : restOfBlock 0 ((mark, line) :: t) = [] := by
  rw [restOfBlock, Line.nest, if_pos h]

/-! ## The first and last character of a text -/

/-- A text that begins with a character. -/
def StartsIn (c : Char) (x : String) : Prop := x.toList.head? = some c

/-- A text that ends in a character. -/
def EndsIn (c : Char) (x : String) : Prop := x.toList.getLast? = some c

variable {c : Char} {x y : String}

theorem StartsIn.append (h : StartsIn c x) (y : String) : StartsIn c (x ++ y) := by
  unfold StartsIn at h ⊢
  rw [String.toList_append, List.head?_append, h]
  rfl

theorem EndsIn.append (x : String) (h : EndsIn c y) : EndsIn c (x ++ y) := by
  unfold EndsIn at h ⊢
  rw [String.toList_append, List.getLast?_append, h]
  rfl

theorem StartsIn.closes (h : StartsIn c x) (depth : Nat) :
    (Line.mk depth x).closes = (c == '\x7d') := by
  unfold Line.closes
  rw [h]
  rfl

theorem EndsIn.opens (h : EndsIn c x) (depth : Nat) :
    (Line.mk depth x).opens = (c == '\x7b') := by
  unfold Line.opens
  rw [h]
  rfl

/-- **A text that begins with a word.** -/
def BeginsWord (x : String) : Prop := ∃ c, isWordChar c = true ∧ StartsIn c x

theorem BeginsWord.append (h : BeginsWord x) (y : String) : BeginsWord (x ++ y) := by
  obtain ⟨c, hc, hx⟩ := h
  exact ⟨c, hc, hx.append y⟩

/-- A text that begins with a word closes no block: a brace is no character of
words. -/
theorem BeginsWord.not_closes (h : BeginsWord x) (depth : Nat) :
    (Line.mk depth x).closes = false := by
  obtain ⟨c, hc, hx⟩ := h
  rw [hx.closes]
  refine beq_eq_false_iff_ne.mpr fun heq => ?_
  rw [heq] at hc
  cases hc

theorem beginsWord_of_word {word : List Char} (hx : x.toList = word) (hne : word ≠ [])
    (hword : ∀ c ∈ word, isWordChar c = true) : BeginsWord x := by
  obtain ⟨c, cs, rfl⟩ := List.exists_cons_of_ne_nil hne
  exact ⟨c, hword c List.mem_cons_self, congrArg List.head? hx⟩

theorem beginsWord_identifier {d : Dialect} (h : Lexeme d .identifier x) :
    BeginsWord x := by
  refine beginsWord_of_word rfl ?_ h.identifier_word
  obtain ⟨c, cs, hx, -⟩ := h
  rw [hx]
  nofun

/-- The name of a library is a word, without the mark that it is written
with. -/
theorem word_library {d : Dialect} (h : d.vocabulary.Library x) :
    x.toList ≠ [] ∧ ∀ c ∈ x.toList, isWordChar c = true := by
  obtain ⟨word, hne, hword, ⟨-, hx⟩ | ⟨hk, -⟩⟩ := (Lexeme.ofLibrary h).library_word (.inl rfl)
  · have htext := congrArg String.toList hx
    rw [String.toList_append, @String.toList_ofList ('@' :: word)] at htext
    have hchars : x.toList = word := (List.cons.inj htext).2
    rw [hchars]
    exact ⟨hne, hword⟩
  · cases hk

theorem word_qualifiedLibrary {d : Dialect} (h : Lexeme d .qualifier x) :
    (qualifiedLibrary x).toList ≠ [] ∧ ∀ c ∈ (qualifiedLibrary x).toList, isWordChar c = true := by
  obtain ⟨word, hne, hword, ⟨hk, -⟩ | ⟨-, hx⟩⟩ := h.library_word (.inr rfl)
  · cases hk
  · have htext := congrArg String.toList (h.qualifier_eq.trans hx)
    rw [String.toList_append, String.toList_append,
      @String.toList_ofList ('@' :: (word ++ [':', ':']))] at htext
    have hchars : (qualifiedLibrary x).toList = word :=
      List.append_cancel_right (List.cons.inj htext).2
    rw [hchars]
    exact ⟨hne, hword⟩

theorem beginsWord_library {d : Dialect} (h : d.vocabulary.Library x) : BeginsWord x :=
  beginsWord_of_word rfl (word_library h).1 (word_library h).2

theorem beginsWord_qualifiedLibrary {d : Dialect} (h : Lexeme d .qualifier x) :
    BeginsWord (qualifiedLibrary x) :=
  beginsWord_of_word rfl (word_qualifiedLibrary h).1 (word_qualifiedLibrary h).2

/-! ## The braces of the line of a node -/

/-- Whether the line of a node opens a block. -/
def opensBlock : Node → Bool
  | .run _ _ | .ifThen _ _ | .elseIf _ _ | .otherwise _ | .loop _ _ _ _ | .function _ _ => true
  | _ => false

/-- Whether the line of a node closes a block. -/
def closesBlock : Node → Bool
  | .elseIf _ _ | .otherwise _ | .endIf | .endLoop => true
  | _ => false

theorem endsIn_declaration (names : Names) (v : Declaration) :
    EndsIn ';' (declaration names v) := by
  obtain ⟨type, name, initializer, constant⟩ := v
  cases initializer with
  | value x => exact EndsIn.append _ (by rfl)
  | call c => exact EndsIn.append _ (by rfl)
  | array size values => exact EndsIn.append _ (by rfl)

theorem endsIn_calculation (c : Calculation) : EndsIn ';' (calculation c) := by
  unfold calculation
  split
  · exact EndsIn.append _ (by rfl)
  · exact EndsIn.append _ (by rfl)

/-- The last character of the line of a node. -/
def lastChar (node : Node) : Char :=
  if opensBlock node then '\x7b' else if closesBlock node then '\x7d' else ';'

theorem endsIn_line (names : Names) {node : Node} (h : isWritten node = true) :
    EndsIn (lastChar node) (lineText names node) := by
  cases node with
  | declare v => exact endsIn_declaration names v
  | calculate c => exact endsIn_calculation c
  | giveBack value? =>
    cases value? with
    | none => exact show EndsIn ';' "return;" from rfl
    | some value => exact EndsIn.append _ (by rfl)
  | otherwise body => exact show EndsIn '\x7b' "\x7d else \x7b" from rfl
  | endIf => exact show EndsIn '\x7d' "\x7d" from rfl
  | endLoop => exact show EndsIn '\x7d' "\x7d" from rfl
  | useLibrary name span => cases h
  | openNamespace name => cases h
  | _ => exact EndsIn.append _ (by rfl)

/-- **The line of a node opens a block** exactly if the node has a body. It is
the last character of the line that tells. -/
theorem opens_line (names : Names) (depth : Nat) {node : Node} (h : isWritten node = true) :
    (Line.mk depth (lineText names node)).opens = opensBlock node := by
  rw [(endsIn_line names h).opens, lastChar]
  cases opensBlock node with
  | true => rfl
  | false => cases closesBlock node <;> rfl

theorem beginsWord_type (type : ValueType) : BeginsWord type.cpp := by
  cases type <;> exact ⟨_, rfl, rfl⟩

/-- A declaration begins with its type, after `const` or not. What comes
behind does not matter to its first character. -/
theorem exists_declaration_eq (names : Names) (v : Declaration) :
    ∃ rest, declaration names v = (if v.constant then "const " else "") ++ v.type.cpp ++ rest := by
  unfold declaration
  dsimp only
  split
  all_goals
    simp only [String.append_assoc]
    exact ⟨_, rfl⟩

theorem beginsWord_declaration (names : Names) (v : Declaration) :
    BeginsWord (declaration names v) := by
  obtain ⟨rest, hrest⟩ := exists_declaration_eq names v
  rw [hrest]
  refine BeginsWord.append ?_ rest
  cases v.constant with
  | true =>
    have hconst : BeginsWord "const " := ⟨'c', rfl, rfl⟩
    exact hconst.append _
  | false =>
    show BeginsWord ("" ++ v.type.cpp)
    rw [String.empty_append]
    exact beginsWord_type v.type

theorem beginsWord_element {name : String} (h : BeginsWord name) (index? : Option String) :
    BeginsWord (element name index?) := by
  cases index? with
  | none => exact h
  | some index => exact .append (.append (h.append _) _) _

/-- The namespace of the unit, if there is one, begins with a word. -/
def Names.Wordy (names : Names) : Prop := ∀ space, names.space? = some space → BeginsWord space

theorem beginsWord_call {names : Names} {c : Call} (hc : BeginsWord c.function)
    (hspace : names.Wordy) :
    BeginsWord (call names c) := by
  have hplain : BeginsWord (plainCall c) := .append (.append (hc.append _) _) _
  unfold call
  split
  · next space hs =>
    split
    · exact .append (BeginsWord.append (hspace space hs) _) _
    · exact hplain
  · exact hplain

theorem beginsWord_calculation {d : Dialect} {s : Scope} {c : Calculation}
    (h : Node.Stored d.vocabulary s c) : BeginsWord (calculation c) := by
  unfold Node.Stored at h
  unfold calculation
  split
  · next destination hd =>
    rw [hd] at h
    simp only [String.append_assoc]
    exact (beginsWord_identifier h.2.1).append _
  · next hd =>
    rw [hd] at h
    simp only [String.append_assoc]
    exact (beginsWord_identifier h.1).append _

/-- **The line of a node begins with a word** if the node closes no block. By
cases on the node: it begins with a keyword, a type or a name that was
checked. -/
theorem beginsWord_line {d : Dialect} {ctx : Context} {F : Facts} {names : Names}
    (hspace : names.Wordy) {node : Node}
    (h : node.Checked d.vocabulary ctx F) (hwritten : isWritten node = true)
    (hcloses : closesBlock node = false) : BeginsWord (lineText names node) := by
  have hfor : BeginsWord "for (int run = 0; run < " := ⟨'f', rfl, rfl⟩
  have hloop : BeginsWord "for (int32_t " := ⟨'f', rfl, rfl⟩
  have hout : BeginsWord "std::cout << " := ⟨'s', rfl, rfl⟩
  have hif : BeginsWord "if (" := ⟨'i', rfl, rfl⟩
  have hmap : BeginsWord backupMap := ⟨'m', rfl, rfl⟩
  have hreturn : BeginsWord "return " := ⟨'r', rfl, rfl⟩
  cases node with
  | run count body => exact (hfor.append _).append _
  | declare v => exact beginsWord_declaration names v
  | assign a =>
    have htarget := beginsWord_element (beginsWord_identifier h.1) a.index?
    exact .append (.append (htarget.append _) _) _
  | output name index? => exact (hout.append _).append _
  | ifThen c body => exact (hif.append _).append _
  | elseIf c body => cases hcloses
  | otherwise body => cases hcloses
  | endIf => cases hcloses
  | loop counter start stop body =>
    show BeginsWord (loopHead counter start stop)
    unfold loopHead
    simp only [String.append_assoc]
    exact hloop.append _
  | endLoop => cases hcloses
  | save name => exact .append (.append (.append (.append (hmap.append _) _) _) _) _
  | restore name =>
    have hname := beginsWord_identifier h.1
    exact .append (.append (.append (.append (.append (.append (hname.append _) _) _) _) _) _) _
  | function s body =>
    show BeginsWord (functionHead s)
    unfold functionHead
    simp only [String.append_assoc]
    exact (beginsWord_type _).append _
  | giveBack value? =>
    cases value? with
    | none => exact ⟨'r', rfl, show StartsIn 'r' "return;" from rfl⟩
    | some value => exact (hreturn.append _).append _
  | call c => exact (beginsWord_call (beginsWord_identifier h.1.1) hspace).append _
  | calculate c => exact beginsWord_calculation h.2.2.2
  | useLibrary name span => cases hwritten
  | openNamespace name => cases hwritten
  | qualifiedCall library c =>
    obtain ⟨-, ⟨x, hx, rfl⟩, -⟩ := h
    exact .append (.append (BeginsWord.append (beginsWord_qualifiedLibrary hx) _) _) _

/-- **The line of a node closes a block** exactly if the node ends a
conditional or loop, or is a further branch. All others begin with a word. -/
theorem closes_line {d : Dialect} {ctx : Context} {F : Facts} {names : Names}
    (hspace : names.Wordy) {node : Node}
    (h : node.Checked d.vocabulary ctx F) (hwritten : isWritten node = true) (depth : Nat) :
    (Line.mk depth (lineText names node)).closes = closesBlock node := by
  have helse : StartsIn '\x7d' "\x7d else if (" := rfl
  have hotherwise : StartsIn '\x7d' "\x7d else \x7b" := rfl
  have hclose : StartsIn '\x7d' "\x7d" := rfl
  cases hcloses : closesBlock node with
  | false => exact (beginsWord_line hspace h hwritten hcloses).not_closes depth
  | true =>
    cases node with
    | elseIf c body => exact ((helse.append _).append _).closes depth
    | otherwise body => exact hotherwise.closes depth
    | endIf => exact hclose.closes depth
    | endLoop => exact hclose.closes depth
    | _ => cases hcloses

/-! ## Blocks and lists of nodes -/

namespace Line

variable {line : Line}

theorem nest_of_not_closes (h : line.closes = false) (n : Nat) :
    line.nest n = some (n + if line.opens then 1 else 0) := by
  cases n with
  | zero => rw [nest, h, Nat.zero_add]; rfl
  | succ n => rw [nest, h]; rfl

theorem nest_of_closes (h : line.closes = true) (n : Nat) :
    line.nest (n + 1) = some (n + if line.opens then 1 else 0) := by
  rw [nest, if_pos h]

end Line

end MapleCompiler.Cpp

namespace MapleCompiler

open Cpp

namespace Part

/-- How many blocks are open that the next node closes. -/
def unclosed (part : Part) : Nat := if part.isFinal then 0 else 1

variable {part next : Part} {node : Node}

/-- What closes a block stands where one is open, and nothing else does. -/
theorem closesBlock_of_after? (h : part.after? node = some next) :
    closesBlock node = !part.isFinal := by
  cases part <;> cases node <;> first | rfl | cases h

/-- A block stays open after a node that opens one and does not close it: a
branch or a loop, which a later node of the same list closes. -/
theorem unclosed_of_after? (h : part.after? node = some next) (depth : Nat) :
    next.unclosed = if opensBlock node && (Cpp.closing depth node).isEmpty then 1 else 0 := by
  cases part <;> cases node <;> first | (cases h; done) | (cases h; rfl)

/-- The line of a node takes the open blocks to those that are open in its
body. A further branch closes the block of the branch before it and opens its
own. -/
theorem nest_line {d : Dialect} {ctx : Context} {F : Facts} {names : Names}
    (hspace : names.Wordy)
    (h : part.after? node = some next) (hnode : node.Checked d.vocabulary ctx F)
    (hwritten : isWritten node = true) (depth n : Nat) :
    (Line.mk depth (lineText names node)).nest (n + part.unclosed) =
      some (n + if opensBlock node then 1 else 0) := by
  have hcloses := closes_line hspace hnode hwritten depth
  rw [closesBlock_of_after? h] at hcloses
  rw [unclosed, ← opens_line names depth hwritten]
  cases hfinal : part.isFinal with
  | true =>
    rw [hfinal] at hcloses
    exact Line.nest_of_not_closes hcloses n
  | false =>
    rw [hfinal] at hcloses
    exact Line.nest_of_closes hcloses n

/-- The line after the body of a node closes the block of the body, unless a
node of its own does. -/
theorem restOfBlock_closing (h : part.after? node = some next) (depth n : Nat) (t : Trace) :
    restOfBlock (n + if opensBlock node then 1 else 0) (Cpp.closing depth node ++ t) =
      Cpp.closing depth node ++ restOfBlock (n + next.unclosed) t := by
  have hclose : StartsIn '\x7d' "\x7d" := rfl
  have hopens : EndsIn '\x7d' "\x7d" := rfl
  have hnest : (Line.mk depth "\x7d").nest (n + 1) = some n := by
    rw [Line.nest_of_closes (hclose.closes depth), hopens.opens]
    rfl
  rw [unclosed_of_after? h depth]
  cases node with
  | run count body => exact restOfBlock_cons hnest none t
  | function s body => exact restOfBlock_cons hnest none t
  | _ => rfl

/-- Nothing is open around a node that closes no block and leaves none
open. -/
theorem unclosed_eq_zero (h : part.after? node = some next) (hcloses : closesBlock node = false)
    (hopens : (opensBlock node && (Cpp.closing 0 node).isEmpty) = false) :
    part.unclosed = 0 ∧ next.unclosed = 0 := by
  have hfinal : part.isFinal = true := by
    rw [closesBlock_of_after? h] at hcloses
    simpa using hcloses
  rw [unclosed_of_after? h 0, hopens]
  exact ⟨if_pos hfinal, rfl⟩

/-- Functions and the head of a unit leave no block open, so the lines that
follow them are not inside of them. -/
theorem unclosed_of_not_isStatement (h : part.after? node = some next)
    (hnode : isStatement node = false) : part.unclosed = 0 ∧ next.unclosed = 0 := by
  cases node <;> first | exact unclosed_eq_zero h rfl rfl | cases hnode

/-- **The rest of a block reaches past a node**, if it does so past its body.
The line of the node, its body and the line that closes it leave as many
blocks open as the next node expects. -/
theorem restOfBlock_traceNode {d : Dialect} {ctx : Context} {F : Facts} {names : Names}
    (hspace : names.Wordy)
    (h : part.after? node = some next) (hnode : node.Checked d.vocabulary ctx F) (depth : Nat)
    (σ : Site)
    (hbody : ∀ n t, restOfBlock n
        (traceList (fun _ => true) names (depth + 1) σ 0 node.body ++ t) =
      traceList (fun _ => true) names (depth + 1) σ 0 node.body ++ restOfBlock n t)
    (n : Nat) (t : Trace) :
    restOfBlock (n + part.unclosed) (traceNode names depth σ node ++ t) =
      traceNode names depth σ node ++ restOfBlock (n + next.unclosed) t := by
  have hopening (t : Trace) :
      restOfBlock (n + part.unclosed) (opening names depth σ node ++ t) =
        opening names depth σ node ++ restOfBlock (n + if opensBlock node then 1 else 0) t := by
    unfold opening
    split
    · next hwritten =>
      rw [List.singleton_append, List.singleton_append,
        restOfBlock_cons (nest_line hspace h hnode hwritten depth n)]
    · next hwritten =>
      have hhead : isStatement node = false ∧ opensBlock node = false := by
        cases node <;> first | exact ⟨rfl, rfl⟩ | exact absurd rfl hwritten
      rw [(unclosed_of_not_isStatement h hhead.1).1, hhead.2]
      rfl
  rw [traceNode_eq, List.append_assoc, List.append_assoc, List.append_assoc, List.append_assoc,
    hopening, hbody, restOfBlock_closing h]

end Part

end MapleCompiler
