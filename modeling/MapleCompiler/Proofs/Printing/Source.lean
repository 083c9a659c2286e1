import MapleCompiler.Proofs.Token.Vocabulary

/-!
# Programs as source texts

`Program.source` writes a program down in a dialect, one canonical text for each
program: the words of its nodes in their order, with blanks between them. A
list has no comma after its last item, a loop has both of its bounds, and an
array has braces only if it has values. A literal that was copied out of an
array is written as the element it was copied from.

The words of an acceptable program are lexemes of its dialect
(`Source.written_bodyWords`), and the words after a statement never
continue it (`Source.breaks_bodyWords`). `Node.unplaced` forgets where the names
of imported libraries stood, which is all that the text of a program does not
say.
-/

namespace MapleCompiler

namespace Source

variable (d : Dialect)

/-! ## Words -/

/-- Items with commas between them. -/
def listWords {α : Type} (item : α → List String) (items : List α) : List String :=
  [d.text .comma].intercalate (items.map item)

/-- An operand in brackets. -/
def bracketed (x : String) : List String := [d.text .leftBracket, x, d.text .rightBracket]

/-- The index of an element, if there is one. -/
def indexWords : Option String → List String
  | some x => bracketed d x
  | none => []

/-- `LEFT OP RIGHT`. -/
def conditionWords (c : Condition) : List String := [c.left, d.text (.comparison c.op), c.right]

/-- `NAME : ARGUMENTS :`. -/
def callWords (c : Call) : List String :=
  c.function :: d.text .colon :: (listWords d (fun x => [x]) c.arguments ++ [d.text .colon])

/-- `-> { VALUES }`, if there are values. -/
def valueWords : List String → List String
  | [] => []
  | x :: rest =>
    d.text .arrow :: d.text .leftBrace ::
      (listWords d (fun y => [y]) (x :: rest) ++ [d.text .rightBrace])

/-- What a variable starts with. -/
def initializerWords : Initializer → List String
  | .value x => [x]
  | .call c => callWords d c
  | .array size values =>
    d.text .leftBracket :: d.text .rightBracket :: toString size :: valueWords d values

/-- `[ch] TYPE NAME INITIALIZER`. -/
def declarationWords (v : Declaration) : List String :=
  (if v.constant then [] else [d.text .ch]) ++
    d.text (.type v.type) :: v.name :: initializerWords d v.initializer

/-- What is assigned. -/
def assignedWords : AssignedValue → List String
  | .plain x => [x]
  | .copied array i _ => array :: bracketed d (toString i)
  | .element array x => array :: bracketed d x

/-- `LEFT RIGHT [=> DESTINATION]`. -/
def calculationWords (c : Calculation) : List String :=
  c.left :: c.right ::
    match c.destination? with
    | some name => [d.text .into, name]
    | none => []

/-- `TYPE NAME`. -/
def parameterWords (p : String × ValueType) : List String := [d.text (.type p.2), p.1]

/-- `TYPE NAME : PARAMETERS :`. -/
def signatureWords (s : Signature) : List String :=
  d.text (.type s.returnType) :: s.name :: d.text .colon ::
    (listWords d (parameterWords d) s.parameters ++ [d.text .colon])

mutual

/-- **The words of a node.** -/
def nodeWords : Node → List String
  | .run count body => d.text .run :: count :: bodyWords body
  | .declare v => d.text .dec :: declarationWords d v
  | .assign a =>
    d.text .set :: a.target :: (indexWords d a.index? ++ assignedWords d a.value)
  | .output name index? => d.text .out :: name :: indexWords d index?
  | .ifThen c body => d.text .ifWord :: (conditionWords d c ++ bodyWords body)
  | .elseIf c body => d.text .elifWord :: (conditionWords d c ++ bodyWords body)
  | .otherwise body => d.text .elseWord :: bodyWords body
  | .endIf => [d.text .endWord]
  | .loop counter start stop body =>
    d.text .loop :: counter :: start :: d.text .dotDot :: stop :: bodyWords body
  | .endLoop => [d.text .roll]
  | .save name => [d.text .back, name]
  | .restore name => [d.text .load, name]
  | .function s body =>
    d.text .fnc :: (signatureWords d s ++ bodyWords body ++ [d.text .endWord])
  | .giveBack value? => d.text .rtn :: value?.toList
  | .call c => callWords d c
  | .calculate c => d.text (.arithmetic c.op) :: calculationWords d c
  | .useLibrary name _ => [d.text .lib, "@" ++ name]
  | .openNamespace name => [d.text .init, "@" ++ name]
  | .qualifiedCall library c => ("@" ++ library ++ "::") :: callWords d c

/-- The words of the nodes of a list. -/
def bodyWords : List Node → List String
  | [] => []
  | node :: rest => nodeWords node ++ bodyWords rest

end

end Source

/-- **A program as a source text.** -/
def Program.source (d : Dialect) (p : Program) : String :=
  " ".intercalate (Source.bodyWords d p.nodes)

/-! ## Programs without places -/

mutual

/-- A node without the places of its imports. -/
def Node.unplaced : Node → Node
  | .run count body => .run count (bodyUnplaced body)
  | .ifThen c body => .ifThen c (bodyUnplaced body)
  | .elseIf c body => .elseIf c (bodyUnplaced body)
  | .otherwise body => .otherwise (bodyUnplaced body)
  | .loop counter start stop body => .loop counter start stop (bodyUnplaced body)
  | .function s body => .function s (bodyUnplaced body)
  | .useLibrary name _ => .useLibrary name ⟨0, 0, 0, 0⟩
  | node => node

/-- The nodes of a list without the places of their imports. -/
def Node.bodyUnplaced : List Node → List Node
  | [] => []
  | node :: rest => node.unplaced :: bodyUnplaced rest

end

theorem Node.bodyUnplaced_append (nodes rest : List Node) :
    bodyUnplaced (nodes ++ rest) = bodyUnplaced nodes ++ bodyUnplaced rest := by
  induction nodes with
  | nil => rfl
  | cons node nodes ih =>
    rw [List.cons_append, bodyUnplaced, bodyUnplaced, ih, List.cons_append]

/-- A program without the places of its imports. -/
def Program.unplaced (p : Program) : Program := ⟨Node.bodyUnplaced p.nodes⟩

namespace Source

variable {d : Dialect}

/-! ## All words are lexemes -/

/-- Words that are lexemes of a dialect. -/
def Written (d : Dialect) (xs : List String) : Prop := ∀ x ∈ xs, ∃ kind, Lexeme d kind x

@[simp] theorem written_nil : Written d [] := nofun

@[simp] theorem written_cons {x : String} {xs : List String} :
    Written d (x :: xs) ↔ (∃ kind, Lexeme d kind x) ∧ Written d xs := List.forall_mem_cons

@[simp] theorem written_append {xs ys : List String} :
    Written d (xs ++ ys) ↔ Written d xs ∧ Written d ys := List.forall_mem_append

section lists

variable {α : Type} (item : α → List String)

@[simp] theorem listWords_singleton (a : α) : listWords d item [a] = item a :=
  List.intercalate_singleton

theorem listWords_cons_cons (a b : α) (rest : List α) :
    listWords d item (a :: b :: rest) =
      item a ++ d.text .comma :: listWords d item (b :: rest) := by
  unfold listWords
  rw [List.map_cons, List.map_cons, List.intercalate_cons_cons, List.append_assoc]
  rfl

theorem written_listWords {items : List α} (h : ∀ a ∈ items, Written d (item a)) :
    Written d (listWords d item items) := by
  induction items with
  | nil => exact written_nil
  | cons a rest ih =>
    obtain ⟨ha, hrest⟩ := List.forall_mem_cons.mp h
    cases rest with
    | nil => rw [listWords_singleton]; exact ha
    | cons b rest =>
      rw [listWords_cons_cons, written_append, written_cons]
      exact ⟨ha, ⟨_, .shared (by decide)⟩, ih hrest⟩

end lists

variable {scope : Scope}

theorem written_operand {x : String} (h : d.vocabulary.Operand x) : ∃ kind, Lexeme d kind x := by
  obtain ⟨kind, -, hx⟩ := h
  exact ⟨kind, hx⟩

theorem written_known {x : String} (h : d.vocabulary.Known scope x) : ∃ kind, Lexeme d kind x := by
  obtain ⟨kind, -, hx, -⟩ := h
  exact ⟨kind, hx⟩

/-- A text that both dialects have is a lexeme of each. -/
theorem written_text {kind : TokenKind} (h : kind ∈ Dialect.legacy.kinds) :
    ∃ kind', Lexeme d kind' (d.text kind) := ⟨kind, .shared h⟩

theorem written_has {kind : TokenKind} (h : d.vocabulary.Has kind) (hfree : kind.isFree = false) :
    ∃ kind', Lexeme d kind' (d.text kind) := ⟨kind, .ofHas h hfree⟩

theorem written_bracketed {x : String} (h : ∃ kind, Lexeme d kind x) :
    Written d (bracketed d x) := by
  simp only [bracketed, written_cons]
  exact ⟨written_text (by decide), h, written_text (by decide), written_nil⟩

theorem written_indexWords {index? : Option String}
    (h : ∀ x, index? = some x → ∃ kind, Lexeme d kind x) : Written d (indexWords d index?) := by
  cases index? with
  | none => exact written_nil
  | some x => exact written_bracketed (h x rfl)

theorem written_conditionWords {c : Condition}
    (h : Node.ConditionChecked d.vocabulary scope c) : Written d (conditionWords d c) := by
  obtain ⟨hleft, hop, hright⟩ := h
  simp only [conditionWords, written_cons]
  exact ⟨written_known hleft, written_has hop rfl, written_known hright, written_nil⟩

theorem written_callWords {c : Call} (h : Node.CallChecked d.vocabulary scope c) :
    Written d (callWords d c) := by
  obtain ⟨hname, harguments⟩ := h
  simp only [callWords, written_cons, written_append]
  refine ⟨⟨_, hname⟩, written_text (by decide), written_listWords _ fun x hx => ?_,
    written_text (by decide), written_nil⟩
  exact written_cons.mpr ⟨written_known (harguments x hx), written_nil⟩

theorem written_initializerWords {type : ValueType} {init : Initializer}
    (h : Node.Initializes d.vocabulary scope type init) : Written d (initializerWords d init) := by
  cases init with
  | value x => exact written_cons.mpr ⟨written_operand h.1, written_nil⟩
  | call c => exact written_callWords h.1
  | array size values =>
    obtain ⟨-, -, -, hvalues⟩ := h
    simp only [initializerWords, written_cons]
    refine ⟨written_text (by decide), written_text (by decide), ⟨_, .toString size⟩, ?_⟩
    cases values with
    | nil => exact written_nil
    | cons x rest =>
      simp only [valueWords, written_cons, written_append]
      refine ⟨written_text (by decide), written_text (by decide),
        written_listWords _ fun x hx => ?_, written_text (by decide), written_nil⟩
      obtain ⟨⟨kind, -, hx⟩, -⟩ := hvalues x hx
      exact written_cons.mpr ⟨⟨kind, hx⟩, written_nil⟩

theorem written_assignedWords {type : ValueType} {value : AssignedValue}
    (h : Node.Assigns d.vocabulary scope type value) : Written d (assignedWords d value) := by
  cases value with
  | plain x => exact written_cons.mpr ⟨written_operand h.1, written_nil⟩
  | copied array i literal =>
    exact written_cons.mpr ⟨written_operand h.1, written_bracketed ⟨_, .toString i⟩⟩
  | element array x =>
    exact written_cons.mpr ⟨written_operand h.1, written_bracketed ⟨_, h.2.1⟩⟩

theorem written_calculationWords {c : Calculation} (hleft : d.vocabulary.Known scope c.left)
    (hright : d.vocabulary.Known scope c.right) (h : Node.Stored d.vocabulary scope c) :
    Written d (calculationWords d c) := by
  simp only [calculationWords, written_cons]
  refine ⟨written_known hleft, written_known hright, ?_⟩
  unfold Node.Stored at h
  cases hdestination : c.destination? with
  | none => exact written_nil
  | some name =>
    rw [hdestination] at h
    exact written_cons.mpr ⟨written_has h.1 rfl, written_cons.mpr ⟨⟨_, h.2.1⟩, written_nil⟩⟩

theorem written_signatureWords {s : Signature} (htype : d.vocabulary.Has (.type s.returnType))
    (hname : d.vocabulary.word .identifier s.name)
    (h : Node.ParametersChecked d.vocabulary scope s.parameters) :
    Written d (signatureWords d s) := by
  simp only [signatureWords, written_cons, written_append]
  refine ⟨written_has htype rfl, ⟨_, hname⟩, written_text (by decide),
    written_listWords _ fun p hp => ?_, written_text (by decide), written_nil⟩
  obtain ⟨hp, hhas, -⟩ := h.1 p hp
  exact written_cons.mpr ⟨written_has hhas rfl, written_cons.mpr ⟨⟨_, hp⟩, written_nil⟩⟩

/-- The words of a node that has what it needs, if those of its body are
lexemes. By cases on the node: its names were checked to be words, and the
rest are words of the dialect. -/
theorem written_nodeWords {ctx : Context} {F : Facts} {node : Node}
    (h : node.Checked d.vocabulary ctx F) (hbody : Written d (bodyWords d node.body)) :
    Written d (nodeWords d node) := by
  cases node <;> simp only [nodeWords, written_cons, written_append, written_nil, and_true]
  case run => exact ⟨written_text (by decide), written_known h, hbody⟩
  case declare v =>
    obtain ⟨htype, -, hname, -, hinit⟩ := h
    refine ⟨written_text (by decide), ?_⟩
    simp only [declarationWords, written_append, written_cons]
    refine ⟨?_, written_has htype rfl, ⟨_, hname⟩, written_initializerWords hinit⟩
    cases v.constant with
    | true => exact written_nil
    | false => exact written_cons.mpr ⟨written_text (by decide), written_nil⟩
  case assign a =>
    obtain ⟨hname, type, htarget, hvalue⟩ := h
    refine ⟨written_text (by decide), ⟨_, hname⟩, written_indexWords ?_,
      written_assignedWords hvalue⟩
    intro x hx
    rw [hx] at htarget
    obtain ⟨kind, -, hx, -⟩ := htarget
    exact ⟨kind, hx⟩
  case output name index? =>
    obtain ⟨hname, hindex⟩ := h
    refine ⟨written_text (by decide), written_known hname, written_indexWords ?_⟩
    rintro x rfl
    obtain ⟨_, _, -, kind, -, hx, -⟩ := hindex
    exact ⟨kind, hx⟩
  case ifThen => exact ⟨written_text (by decide), written_conditionWords h, hbody⟩
  case elseIf => exact ⟨written_has h.1 rfl, written_conditionWords h.2, hbody⟩
  case otherwise => exact ⟨written_has h rfl, hbody⟩
  case endIf => exact written_text (by decide)
  case loop =>
    obtain ⟨hcounter, -, hstart, hstop⟩ := h
    exact ⟨written_text (by decide), ⟨_, hcounter⟩, written_known hstart, written_text (by decide),
      written_known hstop, hbody⟩
  case endLoop => exact written_text (by decide)
  case save => exact ⟨written_text (by decide), _, h.1⟩
  case restore => exact ⟨written_text (by decide), _, h.1⟩
  case function s body =>
    obtain ⟨-, htype, hname, -, hparameters⟩ := h
    exact ⟨written_text (by decide), ⟨written_signatureWords htype hname hparameters, hbody⟩,
      written_text (by decide)⟩
  case giveBack value? =>
    refine ⟨written_text (by decide), ?_⟩
    cases value? with
    | none => exact written_nil
    | some x => exact written_cons.mpr ⟨written_operand (h.1 x rfl), written_nil⟩
  case call => exact written_callWords h.1
  case calculate =>
    obtain ⟨hop, hleft, hright, hstored⟩ := h
    exact ⟨written_has hop rfl, written_calculationWords hleft hright hstored⟩
  case useLibrary => exact ⟨written_has h.2.1 rfl, _, .ofLibrary h.2.2.1⟩
  case openNamespace => exact ⟨written_has h.1 rfl, _, .ofLibrary h.2⟩
  case qualifiedCall =>
    obtain ⟨-, ⟨x, hx, rfl⟩, hcall⟩ := h
    rw [hx.qualifier_eq]
    exact ⟨⟨_, hx⟩, written_callWords hcall⟩

/-- **The words of acceptable nodes are lexemes.** -/
theorem written_bodyWords {ctx : Context} {part part' : Part} {F F' : Facts} {nodes : List Node}
    (h : Accepts d.vocabulary ctx part F nodes part' F') : Written d (bodyWords d nodes) := by
  induction h with
  | nil => exact written_nil
  | cons hpart hnode _ hinside _ hbody hrest =>
    rw [bodyWords, written_append]
    exact ⟨written_nodeWords hnode hbody, hrest⟩

/-! ## Where statements begin -/

/-- The kind of the first word of a node. -/
def firstKind : Node → TokenKind
  | .run _ _ => .run
  | .declare _ => .dec
  | .assign _ => .set
  | .output _ _ => .out
  | .ifThen _ _ => .ifWord
  | .elseIf _ _ => .elifWord
  | .otherwise _ => .elseWord
  | .endIf => .endWord
  | .loop _ _ _ _ => .loop
  | .endLoop => .roll
  | .save _ => .back
  | .restore _ => .load
  | .function _ _ => .fnc
  | .giveBack _ => .rtn
  | .call _ => .identifier
  | .calculate c => .arithmetic c.op
  | .useLibrary _ _ => .lib
  | .openNamespace _ => .init
  | .qualifiedCall _ _ => .qualifier

/-- Whether a mark continues a statement that could end before it. -/
def continues : TokenKind → Bool
  | .colon | .leftBracket | .arrow | .into => true
  | _ => false

/-- **Words that begin a new statement**, the first of a kind, or no words.
They do not continue what stands before them; in particular, a name has a
colon after it. -/
def Breaks (d : Dialect) (kind : TokenKind) : List String → Prop
  | [] => kind = .eof
  | x :: xs =>
    Lexeme d kind x ∧ continues kind = false ∧
      (kind.isOperand = true → kind = .identifier ∧ ∃ rest, xs = d.text .colon :: rest)

/-- A node begins with a word of its kind, which breaks off what stands before
it. -/
theorem breaks_nodeWords {ctx : Context} {F : Facts} {node : Node}
    (h : node.Checked d.vocabulary ctx F) (xs : List String) :
    Breaks d (firstKind node) (nodeWords d node ++ xs) := by
  cases node <;> simp only [firstKind]
  case call c => exact ⟨h.1.1, rfl, fun _ => ⟨rfl, _, rfl⟩⟩
  case qualifiedCall =>
    obtain ⟨-, ⟨x, hx, rfl⟩, -⟩ := h
    rw [nodeWords, hx.qualifier_eq]
    exact ⟨hx, rfl, nofun⟩
  case elseIf => exact ⟨.ofHas h.1 rfl, rfl, nofun⟩
  case otherwise => exact ⟨.ofHas h rfl, rfl, nofun⟩
  case calculate => exact ⟨.ofHas h.1 rfl, rfl, nofun⟩
  case useLibrary => exact ⟨.ofHas h.2.1 rfl, rfl, nofun⟩
  case openNamespace => exact ⟨.ofHas h.1 rfl, rfl, nofun⟩
  all_goals exact ⟨.shared (by decide), rfl, nofun⟩

theorem bodyWords_append (nodes rest : List Node) :
    bodyWords d (nodes ++ rest) = bodyWords d nodes ++ bodyWords d rest := by
  induction nodes with
  | nil => rfl
  | cons node nodes ih => rw [List.cons_append, bodyWords, bodyWords, ih, List.append_assoc]

theorem nodeWords_ne_nil (d : Dialect) (node : Node) : nodeWords d node ≠ [] := by
  cases node <;> exact List.cons_ne_nil _ _

theorem length_bodyWords_pos {nodes : List Node} (h : nodes ≠ []) :
    0 < (bodyWords d nodes).length := by
  obtain ⟨node, rest, rfl⟩ := List.exists_cons_of_ne_nil h
  rw [bodyWords, List.length_append]
  have := List.length_pos_iff.mpr (nodeWords_ne_nil d node)
  omega

/-- What follows a list of nodes breaks off what stands before it, and so does
the list, also if it is empty. -/
theorem breaks_bodyWords {ctx : Context} {part part' : Part} {F F' : Facts} {nodes : List Node}
    (h : Accepts d.vocabulary ctx part F nodes part' F') {xs : List String}
    (hxs : ∃ kind, Breaks d kind xs) : ∃ kind, Breaks d kind (bodyWords d nodes ++ xs) := by
  cases h with
  | nil => exact hxs
  | cons hpart hnode hbody hinside hrest =>
    rw [bodyWords, List.append_assoc]
    exact ⟨_, breaks_nodeWords hnode _⟩

end Source

end MapleCompiler
