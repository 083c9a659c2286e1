import MapleCompiler.Proofs.Reading.Blocks
import MapleCompiler.Proofs.Reading.Tandem

/-!
# What the readers do

Every reader of the language is walked through here, once. Its lemma is a statement about
two readings (`Tandem.Tells`), and says all that is known about the reader at once: the two
readings stay together, the cursor gets ahead, and the changes that a success makes are
those of the nodes that it gives back (`Tandem.OneNode`, `Tandem.AllNodes`). The modules
that need one of these facts take it from here by choosing the two readings. When a reader
changes, its lemma in this module has to be looked at, and no other walk through it.

There are three loops: lists with commas, the branches of a condition, and lists of
statements. Each is a number of *rounds* (`Read.listRound`, `Read.branchRound`,
`Read.round`) with its budget as that number. A round goes on with `later` after it took a
token, so with enough rounds what comes after the last of them may be anything.

Main statements: `Tandem.bodies_rounds` for lists of statements with enough rounds, and
`Tandem.bodies_statements` for lists with the same budget in both readings.
-/

namespace MapleCompiler

/-! ## Loops as rounds -/

namespace Read

variable {α : Type}

/-- A round of a list with commas, after some items. What comes after it is
given as `later`, and is asked for only if an item was read. -/
def listRound (close : TokenKind) (expected : String) (item : List α → Read α)
    (later : List α → Read (List α)) (items : List α) : Read (List α) := do
  if ← accept close then return items
  else
    let next ← item items
    let separated ← accept .comma
    let closing ← sees close
    if separated || closing then later (items ++ [next])
    else unexpected expected

/-- A round of the branches of a condition. The words `elif` and `else` lead
to another round, and any other token has to end the condition. -/
def branchRound (body : BodyReader) (ctx : Context) (later : Read (List Node)) :
    Read (List Node) := do
  match (← peek).kind with
  | .elifWord =>
    let _ ← advance
    let cond ← condition
    let nodes ← branchBody body ctx
    return .elseIf cond nodes :: (← later)
  | .elseWord =>
    let _ ← advance
    let nodes ← body ctx.inner (.closedBy [.endWord] (.unexpectedEof "'end'"))
    return .otherwise nodes :: (← later)
  | _ =>
    let _ ← expect .endWord "'end'"
    return [.endIf]

/-- A round of a list of statements. Bodies inside of it are read with one
round less, as are the statements that follow. -/
def round (later : BodyReader) : BodyReader := fun ctx enclosure => do
  match enclosure.verdict ctx.dialect (← peek) with
  | .ends => return []
  | .fails error => throw error
  | .goesOn =>
    let first ← statement later ctx
    let rest ← later ctx enclosure
    return first ++ rest

/-- A list with a budget is that number of rounds, and a fault after the last
of them. -/
theorem listItems_eq_iterate (close : TokenKind) (expected : String) (item : List α → Read α)
    (n : Nat) : listItems close expected item n =
      (listRound close expected item)^[n] fun _ => unexpected expected := by
  induction n with
  | zero => rfl
  | succ n ih =>
    rw [Function.iterate_succ_apply', ← ih]
    rfl

/-- Branches with a budget are that number of rounds, and a fault after the
last of them. -/
theorem branches_eq_iterate (body : BodyReader) (ctx : Context) (n : Nat) :
    branches body ctx n = (branchRound body ctx)^[n] (unexpected "'end'") := by
  induction n with
  | zero => rfl
  | succ n ih =>
    rw [Function.iterate_succ_apply', ← ih]
    rfl

/-- Statements with a budget are that number of rounds. The budget goes down
both into bodies and along the list, so one iteration describes the whole
recursion. -/
theorem statements_eq_iterate (n : Nat) :
    statements n = round^[n] fun _ _ => unexpected "a statement" := by
  induction n with
  | zero => rfl
  | succ n ih =>
    rw [Function.iterate_succ_apply', ← ih]
    rfl

end Read

namespace Tandem

variable {T : Tandem} {K : TokenKind → Prop} {c d : Nat} {α β γ δ : Type} {R : α → β → Prop}
  {V : List Event → α → β → Prop} {W : List Event → γ → δ → Prop} {t t' : Token}

/-! ## Lists with commas -/

section Lists

variable {close : TokenKind} {expected : String} {item : List α → Read α}
  {item' : List β → Read β}

variable (T) in
/-- How the rest of a list is read after some items. -/
abbrev RestOfList (R : α → β → Prop) (c : Nat) (later : List α → Read (List α))
    (later' : List β → Read (List β)) : Prop :=
  ∀ items items', List.Forall₂ R items items' →
    T.Reads c c (List.Forall₂ R) (later items) (later' items')

variable (T) in
/-- The items of two lists are read together, with those before them, and each
of them takes a token. -/
abbrev Items (R : α → β → Prop) (item : List α → Read α) (item' : List β → Read β) : Prop :=
  ∀ c items items', List.Forall₂ R items items' →
    T.Reads c (c + 1) R (item items) (item' items')

/-- **One round of a list.** If the rest of the list is read together after a
token more, then so is the list from here on: the item took that token. -/
theorem restOfList_listRound (hclose : close.isQuiet = true) (hitem : T.Items R item item')
    (c : Nat) (later : List α → Read (List α)) (later' : List β → Read (List β))
    (h : T.RestOfList R (c + 1) later later') :
    T.RestOfList R c (Read.listRound close expected item later)
      (Read.listRound close expected item' later') := by
  intro items items' hitems
  refine (reads_accept close hclose).bindEq fun _ =>
    .ite Iff.rfl (.pure (by omega) ⟨rfl, hitems⟩) ?_
  refine (hitem c items items' hitems).bind fun next next' hnext =>
    (reads_accept .comma rfl).bindEq fun _ => .sees fun _ _ _ _ =>
      .ite Iff.rfl (Tells.narrow ?_) (tells_unexpected expected)
  have hrest := h _ _ (List.rel_append hitems (.cons hnext .nil))
  exact hrest.mono (le_refl _) (.inr (Nat.le_succ c))

/-- **Lists end**, if every item takes a token. With enough rounds it does not
matter what would come after the last of them. -/
theorem restOfList_rounds (hclose : close.isQuiet = true) (hitem : T.Items R item item')
    {n n' : Nat} (henough : T.Enough c n n') (later : List α → Read (List α))
    (later' : List β → Read (List β)) :
    T.RestOfList R c ((Read.listRound close expected item)^[n] later)
      ((Read.listRound close expected item')^[n'] later') :=
  iterate_of_enough (restOfList_listRound hclose hitem) (fun _ _ _ h _ _ _ => .of_lt h)
    (fun _ _ _ _ h hx items items' hitems => .of_beyond h (hx items items' hitems)) henough
    later later'

/-- Lists with commas are read together, item by item. The two budgets come
from the tokens that are left in each reading, and both are enough. -/
theorem reads_listUntil (hclose : close.isQuiet = true) (hitem : T.Items R item item') :
    T.Reads c c (List.Forall₂ R) (Read.listUntil close expected item)
      (Read.listUntil close expected item') := by
  refine .budget (f := fun n => Read.listItems close expected item n [])
    (g := fun n => Read.listItems close expected item' n []) (le_refl c)
    fun c₁ n n' _ henough => ?_
  rw [Read.listItems_eq_iterate, Read.listItems_eq_iterate]
  exact restOfList_rounds hclose hitem henough _ _ _ _ .nil

end Lists

/-! ## Operands, conditions and calls -/

theorem reads_operand (expected : String) :
    T.Reads c (c + 1) T.Operands (Read.operand expected) (Read.operand expected) :=
  (tells_taken expected fun _ => TokenKind.isQuiet_of_isOperand).imp fun _ _ _ ht => ⟨ht.1, ht.2.1⟩

/-- An operand is taken that has a meaning in the scope, in both readings or
in neither. -/
theorem reads_knownOperand (expected : String) :
    T.Reads c (c + 1) T.Operands (Read.knownOperand expected) (Read.knownOperand expected) :=
  (reads_operand expected).bind fun _ _ ht =>
    (reads_rule fun _ => Pairing.rules_requireDeclared ht).bindEq fun _ =>
      .pure (by omega) ⟨rfl, ht⟩

/-- An index in brackets is read in both readings, or there is none in
either. -/
theorem reads_index? : T.Reads c c T.Indices Read.index? Read.index? :=
  (reads_accept _ rfl).bindEq fun _ => .ite Iff.rfl
    ((reads_operand _).bind fun _ _ ht => (reads_expect _ _ rfl).bind fun _ _ _ =>
      .pure (by omega) ⟨rfl, .some ht⟩)
    (.pure (by omega) ⟨rfl, .none⟩)

theorem reads_comparison : T.Reads c c Eq Read.comparison Read.comparison := by
  refine .look fun t t' ht _ => ?_
  rw [T.kind_eq ht]
  split
  · next op hkind =>
    rw [hkind]
    exact .first rfl fun _ _ _ _ => .pure (by omega) ⟨rfl, rfl⟩
  · exact tells_unexpected _

/-- Conditions are read together: two operands with a comparison between
them. -/
theorem reads_condition :
    T.Reads c c (fun a b => b = a.rename T.rename) Read.condition Read.condition :=
  (reads_knownOperand _).bind fun _ _ hleft => reads_comparison.bindEq fun _ =>
    (reads_knownOperand _).bind fun _ _ hright => .pure (by omega) ⟨rfl, by
      rw [hleft.lexeme_eq, hright.lexeme_eq]
      rfl⟩

theorem reads_argument :
    T.Reads c (c + 1) (fun x x' => x' = T.rename x) Read.argument Read.argument :=
  (reads_knownOperand _).bind fun _ _ ht => .pure (by omega) ⟨rfl, ht.lexeme_eq⟩

theorem eq_map_of_forall₂ {f : α → β} {xs : List α} {ys : List β}
    (h : List.Forall₂ (fun x y => y = f x) xs ys) : ys = xs.map f := by
  induction h with
  | nil => rfl
  | cons hxy _ ih => rw [hxy, ih, List.map_cons]

/-- A call begins with a name, so if it is read, a name was looked at. That is
said in terms of `K`: if the kinds that may stand here leave out names, no
call is read. -/
theorem tells_call :
    T.Tells K c (c + 1) (Quiet fun a b => b = a.rename T.rename ∧ K .identifier) Read.call
      Read.call :=
  (tells_expect .identifier _ rfl).bind fun _ _ hname => (reads_expect _ _ rfl).bind fun _ _ _ =>
    (reads_listUntil rfl fun _ _ _ _ => reads_argument).bind fun _ _ harguments =>
      .pure (by omega) ⟨rfl, by
        have hlexeme := Pairing.Names.lexeme_eq hname.1
        rw [hlexeme, eq_map_of_forall₂ harguments]
        rfl, hname.1.2 ▸ hname.2⟩

/-- The token before a call is the name of the function: otherwise the call
fails. -/
theorem tells_callee {f : Token → Call → Read γ} {g : Token → Call → Read δ}
    (h : ∀ t t' a, T.Names t t' →
      T.Tells (fun _ => True) (c + 1) d W (f t a) (g t' (a.rename T.rename))) :
    T.Tells K c d W (Read.peek >>= fun t => Read.call >>= f t)
      (Read.peek >>= fun t => Read.call >>= g t) := by
  refine .look fun t t' ht _ => tells_call.bind ?_
  rintro a _ ⟨rfl, hkind⟩
  exact h t t' a ⟨ht, hkind.symm⟩

end Tandem

/-! ## Statements without a body -/

namespace Pairing

variable (P : Pairing)

/-- Nodes that the two readings give, up to names and places. Places are
compared through `place`, which may forget them. -/
def Nodes (node node' : Node) : Prop :=
  node'.placed P.place = (node.rename P.rename).placed P.place

/-- Lists of nodes that the two readings give, up to names and places. -/
def NodeLists (nodes nodes' : List Node) : Prop :=
  Node.bodyPlaced P.place nodes' = Node.bodyPlaced P.place (Node.bodyRename P.rename nodes)

/-- The place of a statement in the second reading: the depth is the same, and
the function around it has other names. -/
def context (ctx : Context) : Context :=
  ⟨P.dialect', ctx.depth, ctx.function?.map (Signature.rename P.rename)⟩

variable {P} {ctx : Context} {node node' : Node} {nodes nodes' rest rest' : List Node}

theorem nodes_of_eq (h : node' = node.rename P.rename) : P.Nodes node node' :=
  congrArg (Node.placed P.place) h

theorem NodeLists.cons (h : P.Nodes node node') (hrest : P.NodeLists nodes nodes') :
    P.NodeLists (node :: nodes) (node' :: nodes') :=
  congrArg₂ List.cons h hrest

theorem NodeLists.append (h : P.NodeLists nodes nodes') (hrest : P.NodeLists rest rest') :
    P.NodeLists (nodes ++ rest) (nodes' ++ rest') := by
  unfold NodeLists
  rw [Node.bodyRename_append, Node.bodyPlaced_append, Node.bodyPlaced_append, h, hrest]

theorem isTopLevel_context : (P.context ctx).isTopLevel = ctx.isTopLevel := by
  unfold Context.isTopLevel context
  rw [Option.isNone_map]

end Pairing

namespace Tandem

variable {T : Tandem} {c d : Nat} {t t' : Token} {ctx : Context}

variable (T) in
/-- **A node that both readings give**, with its events. -/
def OneNode (events : List Event) (node node' : Node) : Prop :=
  events = Node.events [node] ∧ T.Nodes node node'

variable (T) in
/-- **Nodes that both readings give**, with their events at any depth. -/
def AllNodes (events : List Event) (nodes nodes' : List Node) : Prop :=
  events = Node.events nodes ∧ T.NodeLists nodes nodes'

/-- A node without a body and without an event, which is the same in both
readings up to names. -/
theorem oneNode_of_eq {node node' : Node} (hbody : node.body = []) (hevent : node.event? = none)
    (h : node' = node.rename T.rename) : T.OneNode [] node node' := by
  refine ⟨?_, Pairing.nodes_of_eq h⟩
  rw [Node.events_singleton hbody, hevent]
  rfl

/-- A statement that gives back one node, as a statement that gives back a
list of them. -/
theorem Tells.single {K : TokenKind → Prop} {x y : Read Node} (h : T.Tells K c d T.OneNode x y) :
    T.Tells K c d T.AllNodes (do return [← x]) (do return [← y]) :=
  h.bindAll fun _ _ _ hnode =>
    .pure (by omega) ⟨by rw [List.append_nil, hnode.1], .cons hnode.2 rfl⟩

/-- The type of a variable. By cases on what the word means: no type at all
and a type that cannot be stored are the same fault, at a word that was
taken. -/
theorem reads_storableType : T.Reads c (c + 1) Eq Read.storableType Read.storableType := by
  refine .sees fun t _ _ _ => .ite Iff.rfl (tells_unexpected _) ?_
  cases htype : t.kind.valueType? with
  | none =>
    refine tells_take_failAt .invalidType (fun _ _ => rfl) ?_ ?_
    all_goals
      intro u hu
      rw [hu, htype]
  | some type =>
    by_cases hstorable : type.isStorable = true
    · refine .first (TokenKind.isQuiet_of_valueType? htype) fun u u' hu hkind => ?_
      rw [T.kind_eq hu, hkind, htype]
      dsimp only
      rw [if_pos hstorable, if_pos hstorable]
      exact .pure (by omega) ⟨rfl, rfl⟩
    · refine tells_take_failAt .invalidType (fun _ _ => rfl) ?_ ?_
      all_goals
        intro u hu
        rw [hu, htype]
        exact if_neg hstorable

/-- The size of an array is a literal, so it is the same in both readings. -/
theorem reads_arraySize : T.Reads c (c + 1) Eq Read.arraySize Read.arraySize := by
  refine (reads_expect _ _ rfl).bind fun t t' ht => ?_
  rw [T.fixed_eq ht.1 (.inl (by rw [ht.2]; rfl))]
  split
  · exact .pure (by omega) ⟨rfl, rfl⟩
  · exact tells_failAt ht.1 rfl

/-- One of the values of an array. It has to be a literal of the type of the
array, and there must be room for it. -/
theorem reads_arrayValue {x x' : String} (hx : T.text x x') (type : ValueType) (size : Nat)
    (values : List String) :
    T.Reads c (c + 1) Eq (Read.arrayValue x type size values)
      (Read.arrayValue x' type size values) := by
  refine .look fun t t' ht _ => ?_
  rw [T.kind_eq ht]
  split
  · next hliteral =>
    have hoperand := TokenKind.isOperand_of_isLiteral hliteral
    refine .first (TokenKind.isQuiet_of_isOperand hoperand) fun u u' hu hkind => ?_
    have hvalue : T.Operands u u' := ⟨hu, hkind ▸ hoperand⟩
    refine (reads_rule fun _ => Pairing.rules_checkValue hx type hvalue).bindEq fun _ =>
      .ite Iff.rfl (tells_failAt_text (.indexOutOfRange · _ _) hu hx fun _ _ => rfl)
        (.pure (by omega) ⟨rfl, ?_⟩)
    exact (T.fixed_eq hu (.inl (hkind ▸ hliteral))).symm
  · exact tells_unexpected _

/-- The values of an array as the items of a list. They are literals, so the
values before an item are the same in both readings. -/
theorem items_arrayValue {x x' : String} (hx : T.text x x') (type : ValueType) (size : Nat) :
    T.Items Eq (Read.arrayValue x type size) (Read.arrayValue x' type size) := by
  intro c values values' hvalues
  rw [List.forall₂_eq_eq_eq] at hvalues
  subst hvalues
  exact reads_arrayValue hx type size values

theorem reads_arrayShape {x x' : String} (hx : T.text x x') (type : ValueType) :
    T.Reads c c Eq (Read.arrayShape x type) (Read.arrayShape x' type) :=
  (reads_expect _ _ rfl).bind fun _ _ _ => reads_arraySize.bindEq fun size =>
    (reads_accept _ rfl).bindEq fun _ => .ite Iff.rfl
      ((reads_expect _ _ rfl).bind fun _ _ _ =>
        (reads_listUntil rfl (items_arrayValue hx type size)).bind fun _ _ hvalues =>
          .pure (by omega) ⟨rfl, by
            rw [List.forall₂_eq_eq_eq] at hvalues
            rw [hvalues]⟩)
      (.pure (by omega) ⟨rfl, rfl⟩)

/-- **What a variable is declared with**: a call, an array or an operand. The
name that is declared is mentioned in the faults of all three, and is the
replaced one in the second reading. -/
theorem reads_initializer (x : String) (type : ValueType) (constant : Bool) :
    T.Reads c c (fun i i' => i' = (i.1.rename T.rename, i.2)) (Read.initializer x type constant)
      (Read.initializer (T.rename x) type constant) :=
  .seesCall fun _ => .ite Iff.rfl
    (tells_callee fun _ _ call hcallee =>
      (reads_rule fun _ => Pairing.rules_checkCallResult (T.text_rename x) type
        hcallee.operands).bindEq fun _ =>
          (reads_rule fun _ => Pairing.rules_checkArity hcallee.operands call).bindEq fun _ =>
            .pure (by omega) ⟨rfl, rfl⟩)
    ((reads_accept _ rfl).bindEq fun _ => .ite Iff.rfl
      ((reads_arrayShape (T.text_rename x) type).bindEq fun _ => .pure (by omega) ⟨rfl, rfl⟩)
      ((reads_operand _).bind fun _ _ hvalue =>
        (reads_rule fun _ => Pairing.rules_checkValue (T.text_rename x) type hvalue).bindEq
          fun _ => .pure (by omega) ⟨rfl, by rw [hvalue.lexeme_eq]; rfl⟩))

/-- **Declarations.** The name is refused if it has a meaning, before what
comes after it is read; it gets its own meaning last, so it does not stand for
itself. -/
theorem tells_declaration :
    T.Tells (· = .dec) c (c + 1) T.OneNode Read.declaration Read.declaration :=
  .first rfl fun _ _ _ _ => (reads_accept _ rfl).bindEq fun changeable =>
    reads_storableType.bindEq fun type => (reads_identifier _).bind fun name name' hname =>
      .ask fun s => by
        rw [hname.lexeme_eq]
        refine ⟨_, fun s' hs' => by rw [hs'.isDefined], ?_⟩
        refine .ite Iff.rfl (tells_failAt_text .redeclared hname.1 (T.text_rename _) fun _ _ => rfl)
          ((reads_initializer _ type _).bind ?_)
        rintro ⟨init, role⟩ _ rfl
        rw [← hname.lexeme_eq]
        exact (reads_declare hname type role).bindEq fun _ =>
          .pure (by omega) (oneNode_of_eq rfl rfl (by rw [hname.lexeme_eq]; rfl))

/-- **Assignments**, to a variable or an element, from an operand or an
element. The value is checked against the type of the target, which both
readings find alike. -/
theorem tells_assignment :
    T.Tells (· = .set) c (c + 1) T.OneNode Read.assignment Read.assignment := by
  refine .first rfl fun _ _ _ _ => (reads_identifier _).bind fun target target' htarget =>
    reads_index?.bind fun i i' hi => (reads_operand _).bind fun value value' hvalue =>
      reads_index?.bind fun j j' hj =>
        (reads_rule fun _ => Pairing.rules_checkTarget htarget.operands hi).bindEq fun type => ?_
  have htext := T.text_lexeme htarget.1
  have hassigned : ∀ v v', v' = v.rename T.rename →
      T.Tells (fun _ => True) (c + 1 + 1 + 1) (c + 1) T.OneNode
        (Pure.pure (.assign ⟨target.lexeme, i.map Token.lexeme, v⟩))
        (Pure.pure (.assign ⟨target'.lexeme, i'.map Token.lexeme, v'⟩)) := by
    rintro v _ rfl
    refine .pure (by omega) (oneNode_of_eq rfl rfl ?_)
    rw [htarget.lexeme_eq, hi.lexemes_eq]
    rfl
  dsimp only
  cases hj with
  | some hj =>
    exact (reads_rule fun _ => Pairing.rules_elementValue htext type hvalue hj).bind hassigned
  | none =>
    refine (reads_rule fun _ => Pairing.rules_checkValue htext type hvalue).bindEq fun _ =>
      (Tells.pure (V := Quiet fun v v' => v' = v.rename T.rename) (by omega) ⟨rfl, ?_⟩).bind
        hassigned
    rw [hvalue.lexeme_eq]
    rfl

theorem tells_output : T.Tells (· = .out) c (c + 1) T.OneNode Read.output Read.output :=
  .first rfl fun _ _ _ _ => (reads_knownOperand _).bind fun _ _ hname =>
    reads_index?.bind fun _ _ hi =>
      (reads_rule fun _ => Pairing.rules_checkOutput hname hi).bindEq fun _ =>
        .pure (by omega) (oneNode_of_eq rfl rfl (by
          rw [hname.lexeme_eq, hi.lexemes_eq]
          rfl))

/-- A variable is saved. That is an event, and the only one of the statement;
both scopes record it for counterparts. -/
theorem tells_save : T.Tells (· = .back) c (c + 1) T.OneNode Read.save Read.save := by
  refine .first rfl fun _ _ _ _ => (reads_identifier _).bind fun name _ hname =>
    (reads_rule fun _ => Pairing.rules_checkBackup hname.operands).bindEq fun _ => ?_
  rw [hname.lexeme_eq]
  refine (tells_modifyScope (fun s => .save s name.lexeme) fun s =>
    s.recordBackup_rename T.rename name.lexeme).bindAll fun _ _ _ hevents =>
      .pure (by omega) ⟨?_, ?_⟩
  · rw [hevents, Node.events_singleton rfl]
    rfl
  · exact Pairing.nodes_of_eq rfl

/-- What `load` changes is said of the whole statement: its keyword is taken
with it. The two readings give a warning together, since a variable was saved
in both or in neither. -/
theorem tells_restore : T.Tells (· = .load) c (c + 1) T.OneNode Read.restore Read.restore := by
  have hloosely : T.Loosely (· = .load) c (c + 1) T.Nodes Read.restore Read.restore := by
    refine (loosely_advance (K := (· = .load)) fun _ hk => hk ▸ by simp).bind fun _ _ _ =>
      (reads_identifier _).loosely.bind fun name name' hname =>
        (reads_rule fun _ => Pairing.rules_checkRestore hname.operands).loosely.bind fun _ _ _ =>
          (loosely_modify (fun s => ?_) fun s s' hs => ?_).bind fun _ _ _ =>
            .pure (by omega) (Pairing.nodes_of_eq (by rw [hname.lexeme_eq]; rfl))
    · split
      · exact ⟨rfl, rfl, rfl⟩
      · exact ⟨rfl, rfl, rfl⟩
    · have hwarning := T.warning_restore hname.1 hname.2
      rw [hname.lexeme_eq] at hwarning ⊢
      rw [hs.hasBackup]
      split
      · exact hs
      · exact hs.warn hwarning
  refine hloosely.tells (E := fun node => Node.events [node]) fun s node s₁ hk h => ?_
  obtain ⟨hname, -, rfl, rfl⟩ := Read.restore_eq_ok.mp h
  rw [Node.events_singleton rfl]
  exact (ReadState.Change.restore hk hname).changes

/-- Returning from a function. By cases on whether there is a function around
the statement: outside it is a fault at the keyword; inside, the value is
checked against the type that the function returns. -/
theorem tells_giveBack :
    T.Tells (· = .rtn) c (c + 1) T.OneNode (Read.giveBack ctx) (Read.giveBack (T.context ctx)) := by
  refine .first rfl fun keyword keyword' hkeyword _ => ?_
  dsimp only [Pairing.context]
  cases ctx.function? with
  | none => exact tells_failAt hkeyword rfl
  | some signature =>
    have hend : ∀ value value', T.Indices value value' →
        T.Tells (fun _ => True) (c + 1) (c + 1) T.OneNode
          (do
            Read.rule (·.checkReturn signature keyword value)
            return .giveBack (value.map Token.lexeme))
          (do
            Read.rule (·.checkReturn (signature.rename T.rename) keyword' value')
            return .giveBack (value'.map Token.lexeme)) := fun value value' hvalue =>
      (reads_rule fun _ => Pairing.rules_checkReturn signature hkeyword hvalue).bindEq fun _ =>
        .pure (by omega) (oneNode_of_eq rfl rfl (by rw [hvalue.lexemes_eq]; rfl))
    have hvalue : T.Reads (c + 1) (c + 1) T.Indices (some <$> Read.operand "a return value")
        (some <$> Read.operand "a return value") :=
      ((reads_operand _).map fun _ _ ht => .some ht).mono (le_refl _) (.inr (le_refl _))
    refine .look fun t t' ht _ => .seesCall fun _ => Tells.narrow ?_
    rw [T.kind_eq ht]
    exact .ite Iff.rfl (hvalue.bind hend)
      ((Tells.pure (V := Quiet T.Indices) (by omega) ⟨rfl, .none⟩).bind hend)

/-- **Calculations.** The result goes to the variable after the arrow, or else
to the first operand, which then has to be a variable. -/
theorem tells_calculation (op : Arithmetic) :
    T.Tells (· = .arithmetic op) c (c + 1) T.OneNode (Read.calculation op)
      (Read.calculation op) := by
  refine .first rfl fun _ _ _ _ => (reads_knownOperand _).bind fun left left' hleft =>
    (reads_knownOperand _).bind fun right right' hright => (reads_accept _ rfl).bindEq fun _ => ?_
  have hdestination : T.Reads (c + 1 + 1 + 1) (c + 1) T.Indices
      (some <$> Read.identifier "a destination variable after '=>'")
      (some <$> Read.identifier "a destination variable after '=>'") :=
    ((reads_identifier _).map fun _ _ ht => .some ht.operands).mono (le_refl _) (.inr (by omega))
  have hnode {i i' : Option Token} (hi : T.Indices i i') :
      T.Tells (fun _ => True) (c + 1) (c + 1) T.OneNode
        (Pure.pure (.calculate ⟨op, left.lexeme, right.lexeme, i.map Token.lexeme⟩))
        (Pure.pure (.calculate ⟨op, left'.lexeme, right'.lexeme, i'.map Token.lexeme⟩)) :=
    .pure (by omega) (oneNode_of_eq rfl rfl (by
      rw [hleft.lexeme_eq, hright.lexeme_eq, hi.lexemes_eq]
      rfl))
  refine .ite Iff.rfl (hdestination.bind ?_)
    ((Tells.pure (V := Quiet T.Indices) (d := c + 1) (by omega) ⟨rfl, .none⟩).bind ?_)
  all_goals
    rintro i i' hi
    cases hi with
    | some ht =>
      exact (reads_rule fun _ => Pairing.rules_checkResult op ht).bindEq fun _ => hnode (.some ht)
    | none =>
      rw [hleft.kind_eq]
      have hfault := tells_failAt_text (T := T) (K := fun _ => True) (c := c + 1) (d := c + 1)
        (V := Quiet fun a b : Unit => a = b) (.unexpectedToken "a variable to update") hleft.1
        (T.text_lexeme hleft.1) fun _ _ => rfl
      exact .ite Iff.rfl
        ((reads_rule fun _ => Pairing.rules_checkResult op hleft).bindEq fun _ => hnode .none)
        (hfault.bindEq fun _ => hnode .none)

/-- A call as a statement: the function is known and takes this many
arguments. -/
theorem tells_callStatement :
    T.Tells (fun _ => True) c (c + 1) T.OneNode Read.callStatement Read.callStatement :=
  tells_callee fun _ _ call hcallee =>
    (reads_rule fun _ => Pairing.rules_checkArity hcallee.operands call).bindEq fun _ =>
      .pure (by omega) (oneNode_of_eq rfl rfl rfl)

/-- What `lib` changes is said of the whole statement: the name of the library
is recorded with its place, and the two tokens are taken with it. -/
theorem tells_libraryImport :
    T.Tells (· = .lib) c (c + 1) T.OneNode (Read.libraryImport ctx)
      (Read.libraryImport (T.context ctx)) := by
  have hloosely : T.Loosely (· = .lib) c (c + 1) T.Nodes (Read.libraryImport ctx)
      (Read.libraryImport (T.context ctx)) := by
    refine (loosely_advance (K := (· = .lib)) fun _ hk => hk ▸ by simp).bind
      fun keyword keyword' hkeyword => ?_
    rw [Pairing.isTopLevel_context]
    refine .ite Iff.rfl ?_ (tells_failAt_text (V := Quiet T.Nodes) (.unexpectedToken _) hkeyword.1
      (T.text_lexeme hkeyword.1) fun _ _ => rfl).loosely
    refine (reads_expect _ _ rfl).loosely.bind fun name name' hname => .ask fun s => ?_
    rw [T.fixed_eq hname.1 (.inr (.inl hname.2))]
    refine ⟨_, fun s' hs' => by rw [hs'.imports], ?_⟩
    refine .ite Iff.rfl (tells_failAt (V := Quiet T.Nodes) hname.1 rfl).loosely
      ((loosely_modify (fun s => ?_) fun s s' hs => ?_).bind fun _ _ _ => .pure (by omega) ?_)
    · exact ⟨rfl, rfl, rfl⟩
    · rw [hs.imports]
      exact hs.know _ hs.scope hs.warnings
    · exact congrArg (Node.useLibrary _) (T.place_eq hname.1 hname.2).symm
  refine hloosely.tells (E := fun node => Node.events [node]) fun s node s₁ hk h => ?_
  obtain ⟨-, hname, -, rfl, rfl⟩ := Read.libraryImport_eq_ok.mp h
  rw [Node.events_singleton rfl]
  exact (ReadState.Change.useLibrary hk hname).changes

/-- A library says its name with its first two tokens, or it is a fault. The
cursor is the same in both readings, so they agree on whether these are the
first ones. -/
theorem tells_namespaceInit :
    T.Tells (· = .init) c (c + 1) T.OneNode Read.namespaceInit Read.namespaceInit := by
  have hfails {K : TokenKind → Prop} {c d : Nat} (fault : Fault) (hown : fault.isImport = false) :
      T.Tells K c d T.OneNode (Read.peek >>= fun t => Read.failAt t fault)
        (Read.peek >>= fun t => Read.failAt t fault) :=
    .look fun _ _ ht _ => tells_failAt ht hown
  refine .ask fun s => ⟨_, fun s' hs' => by rw [hs'.taken], ?_⟩
  refine .ite Iff.rfl (.first rfl fun _ _ _ _ => .sees fun t _ _ _ => ?_) (hfails _ rfl)
  by_cases hkind : t.kind = .libraryName
  · rw [if_pos (beq_iff_eq.mpr hkind), hkind]
    refine .first rfl fun name name' hname hname' => .pure (by omega) ?_
    rw [T.fixed_eq hname (.inr (.inl hname'))]
    exact oneNode_of_eq rfl rfl rfl
  · rw [if_neg (mt beq_iff_eq.mp hkind)]
    exact hfails _ rfl

/-- A qualified call is read at its qualifier. Nothing is known of the
functions of a library here, so only the library has to be imported. -/
theorem tells_qualifiedCall :
    T.Tells (· = .qualifier) c (c + 1) T.OneNode Read.qualifiedCall Read.qualifiedCall := by
  refine .first rfl fun qualifier qualifier' hqualifier hkind => .ask fun s => ?_
  rw [T.fixed_eq hqualifier (.inr (.inr hkind))]
  refine ⟨_, fun s' hs' => by rw [hs'.imports], ?_⟩
  refine .ite Iff.rfl ?_ (tells_failAt hqualifier rfl)
  refine .seesCall fun _ => .ite Iff.rfl (tells_call.bind ?_) (tells_unexpected _)
  rintro call _ ⟨rfl, -⟩
  exact .pure (by omega) (oneNode_of_eq rfl rfl rfl)

end Tandem

/-! ## Where lists of statements end -/

namespace Pairing

variable (P : Pairing)

/-- **Surroundings of two lists of statements.** They end at the same kinds of
tokens; only what is said of a text that breaks off, or of another closing
word, may differ. -/
inductive Enclosures : Enclosure → Enclosure → Prop
  | unit (library : Bool) : Enclosures (.unit library) (.unit library)
  | run : Enclosures .run .run
  | closedBy (closers : List TokenKind) {onEof onEof' : Fault}
      (heof : ∀ t t', P.token t t' → P.error (.atToken onEof t) (.atToken onEof' t'))
      (hclosers : ∀ t t', P.token t t' → t.kind ≠ .eof →
        P.error (.unexpected (P.dialect.describeClosers closers) t)
          (.unexpected (P.dialect'.describeClosers closers) t')) :
      Enclosures (.closedBy closers onEof) (.closedBy closers onEof')

/-- What two lists of statements do at counterparts. -/
inductive Verdicts : Verdict → Verdict → Prop
  | goesOn : Verdicts .goesOn .goesOn
  | ends : Verdicts .ends .ends
  | fails {e e' : CompileError} (h : P.error e e') : Verdicts (.fails e) (.fails e')

variable {P} {t t' : Token}

/-- The body of a branch ends where the next one begins. The words are spelled
in the dialect of the reading, which is what `Pairing.error_branch` is
about. -/
theorem enclosures_branch : P.Enclosures
    (.closedBy [.endWord, .elifWord, .elseWord] (.unexpectedEof "'end'"))
    (.closedBy [.endWord, .elifWord, .elseWord] (.unexpectedEof "'end'")) :=
  .closedBy _ (fun _ _ ht => error_const ht rfl) fun _ _ ht hend => P.error_branch ht hend

/-- A body that is closed by one word, spelled alike in all dialects, so that
what is said of another word does not depend on the dialect. -/
theorem enclosures_single {closer : TokenKind} {word : String} {onEof onEof' : Fault}
    (hword : ∀ d : Dialect, d.describeClosers [closer] = word)
    (heof : ∀ t t', P.token t t' → P.error (.atToken onEof t) (.atToken onEof' t')) :
    P.Enclosures (.closedBy [closer] onEof) (.closedBy [closer] onEof') := by
  refine .closedBy _ heof fun t t' ht _ => ?_
  rw [hword, hword]
  exact error_unexpected ht word

theorem describeClosers_end (d : Dialect) : d.describeClosers [.endWord] = "'end'" := by
  cases d <;> decide

theorem describeClosers_roll (d : Dialect) : d.describeClosers [.roll] = "'roll'" := by
  cases d <;> decide

theorem Verdicts.ite {p : Prop} [Decidable p] {v v' w w' : Verdict} (h : p → P.Verdicts v v')
    (h' : ¬p → P.Verdicts w w') :
    P.Verdicts (if p then v else w) (if p then v' else w') := by
  split
  · exact h ‹_›
  · exact h' ‹_›

/-- **The two lists end together.** By cases on what is around them; the kinds
of the tokens that they look at are the same. -/
theorem verdicts_verdict {enclosure enclosure' : Enclosure}
    (h : P.Enclosures enclosure enclosure') (ht : P.token t t') :
    P.Verdicts (enclosure.verdict P.dialect t) (enclosure'.verdict P.dialect' t') := by
  cases h with
  | unit library =>
    simp only [Enclosure.verdict, P.kind_eq ht]
    exact .ite (fun _ => .ends) fun _ => .ite (fun _ => .fails (error_unexpected ht _)) fun _ =>
      .ite (fun _ => .fails (error_text .libraryStatement ht (P.text_lexeme ht) fun _ _ => rfl))
        fun _ => .goesOn
  | run =>
    simp only [Enclosure.verdict, P.kind_eq ht]
    exact .ite (fun _ => .ends) fun _ => .goesOn
  | closedBy closers heof hclosers =>
    simp only [Enclosure.verdict, P.kind_eq ht]
    exact .ite (fun _ => .ends) fun _ => .ite (fun _ => .fails (heof t t' ht)) fun hend =>
      .ite (fun _ => .fails (hclosers t t' ht hend)) fun _ => .goesOn

end Pairing

/-! ## Statements with a body -/

namespace Tandem

variable {T : Tandem} {c d n n' : Nat} {t t' : Token} {ctx : Context} {body body' : BodyReader}
  {enclosure enclosure' : Enclosure}

variable (T) in
/-- **Readers of lists of statements that stay together** from a cursor on,
and stop where their list ends. -/
structure Bodies (c : Nat) (body body' : BodyReader) : Prop where
  reads : ∀ ctx enclosure enclosure', ctx.dialect = T.dialect → T.Enclosures enclosure enclosure' →
    T.Tells (fun _ => True) c c T.AllNodes (body ctx enclosure) (body' (T.context ctx) enclosure')
  ends : ∀ ctx enclosure enclosure' s nodes s₁, ctx.dialect = T.dialect →
    T.Enclosures enclosure enclosure' → T.First s → c ≤ s.taken →
      body ctx enclosure s = .ok nodes s₁ → enclosure.verdict ctx.dialect s₁.current = .ends

/-- A body is read together with its counterpart, from any later cursor on. -/
theorem Bodies.tells (h : T.Bodies c body body') (ctx : Context) (hctx : ctx.dialect = T.dialect)
    (henclosure : T.Enclosures enclosure enclosure') (hd : c ≤ d) :
    T.Tells (fun _ => True) d d T.AllNodes (body ctx enclosure)
      (body' (T.context ctx) enclosure') :=
  (h.reads ctx enclosure enclosure' hctx henclosure).mono hd (.inr (le_refl d))

/-- Readers of bodies that stay together from a cursor on do so from later
ones. -/
theorem Bodies.mono (h : T.Bodies c body body') (hd : c ≤ d) : T.Bodies d body body' :=
  ⟨fun _ _ _ hctx henclosure => h.tells _ hctx henclosure hd,
    fun _ _ _ s _ _ hctx henclosure hs hc => h.ends _ _ _ s _ _ hctx henclosure hs (hd.trans hc)⟩

/-- After a body that a word closes, the word is taken. That it is this word
is known from where the body ended, and not from looking at it again. -/
theorem Bodies.tells_closed {closer : TokenKind} {onEof onEof' : Fault} {γ δ : Type}
    {W : List Event → γ → δ → Prop} {f : List Node → Read γ} {g : List Node → Read δ}
    (h : T.Bodies c body body') (ctx : Context) (hctx : ctx.dialect = T.dialect)
    (henclosure : T.Enclosures (.closedBy [closer] onEof) (.closedBy [closer] onEof'))
    (hf : ∀ events nodes nodes', T.AllNodes events nodes nodes' →
      T.Tells (· = closer) c d (fun more => W (events ++ more)) (f nodes) (g nodes')) :
    T.Tells (fun _ => True) c d W (body ctx (.closedBy [closer] onEof) >>= f)
      (body' (T.context ctx) (.closedBy [closer] onEof') >>= g) := by
  refine (h.tells ctx hctx henclosure le_rfl).bindEnd (fun s nodes s₁ hs hc _ hrun => ?_) hf
  have hends := h.ends ctx _ _ s nodes s₁ hctx henclosure hs hc hrun
  exact List.mem_singleton.mp (Enclosure.verdict_closedBy_eq_ends.mp hends)

section Statements

variable (hbody : T.Bodies (c + 1) body body') (hctx : ctx.dialect = T.dialect)

include hbody hctx

/-- `run` takes the rest of the list for its body, with no word to end it. -/
theorem tells_runStatement :
    T.Tells (· = .run) c (c + 1) T.AllNodes (Read.runStatement body ctx)
      (Read.runStatement body' (T.context ctx)) := by
  refine .first rfl fun _ _ _ _ => (reads_knownOperand _).bind fun count count' hcount =>
    (hbody.tells ctx.inner hctx .run (by omega)).bindAll fun events nodes nodes' hnodes =>
      .pure (by omega) ⟨?_, .cons ?_ rfl⟩
  · rw [List.append_nil, hnodes.1, Node.events_cons rfl, Node.events_nil, List.append_nil]
    rfl
  · rw [hcount.lexeme_eq]
    exact congrArg (Node.run _) hnodes.2

/-- **One round of branches**, by the word that stands here. The body of a
branch and the branches after it are read after that word. -/
theorem tells_branchRound {later later' : Read (List Node)}
    (hlater : T.Tells (fun _ => True) (c + 1) (c + 1) T.AllNodes later later') :
    T.Tells (fun _ => True) c c T.AllNodes (Read.branchRound body ctx later)
      (Read.branchRound body' (T.context ctx) later') := by
  refine .look fun t t' ht _ => ?_
  rw [T.kind_eq ht]
  split
  · next hkind =>
    rw [hkind]
    refine .first rfl fun _ _ _ _ => reads_condition.bind ?_
    rintro cond _ rfl
    refine (hbody.tells ctx.inner hctx Pairing.enclosures_branch (by omega)).bindAll
      fun events nodes nodes' hnodes => hlater.bindAll fun more rest rest' hrest =>
        .pure (by omega) ⟨?_, .cons (congrArg (Node.elseIf _) hnodes.2) hrest.2⟩
    rw [List.append_nil, hnodes.1, hrest.1, Node.events_cons rfl]
    rfl
  · next hkind =>
    rw [hkind]
    refine .first rfl fun _ _ _ _ => (hbody.tells ctx.inner hctx
      (Pairing.enclosures_single Pairing.describeClosers_end fun _ _ ht =>
        Pairing.error_const ht rfl) (by omega)).bindAll fun events nodes nodes' hnodes =>
          hlater.bindAll fun more rest rest' hrest =>
            .pure (by omega) ⟨?_, .cons (congrArg Node.otherwise hnodes.2) hrest.2⟩
    rw [List.append_nil, hnodes.1, hrest.1, Node.events_cons rfl]
    rfl
  · refine Tells.narrow ((reads_expect _ _ rfl).bind fun _ _ _ => .pure (by omega) ⟨?_, rfl⟩)
    rw [Node.events_singleton rfl]
    rfl

/-- **Branches end**: each begins with a word. So enough rounds are enough for
all of them, and what comes after the last round may be anything. -/
theorem tells_branchRounds (henough : T.Enough d n n') (hd : c ≤ d)
    (later later' : Read (List Node)) :
    T.Tells (fun _ => True) d d T.AllNodes ((Read.branchRound body ctx)^[n] later)
      ((Read.branchRound body' (T.context ctx))^[n'] later') := by
  refine iterate_of_enough (P := fun d x y => c ≤ d →
    T.Tells (fun _ => True) d d T.AllNodes x y) ?_ ?_ ?_ henough later later' hd
  · intro d x y hlater hd
    exact tells_branchRound (hbody.mono (Nat.succ_le_succ hd)) hctx (hlater (by omega))
  · exact fun _ _ _ hlt _ => .of_lt hlt
  · exact fun _ _ _ _ hbeyond hx hd => .of_beyond hbeyond (hx hd)

/-- A condition with its branches. The budget of the branches comes from the
tokens that are left after the first body. -/
theorem tells_ifStatement :
    T.Tells (· = .ifWord) c (c + 1) T.AllNodes (Read.ifStatement body ctx)
      (Read.ifStatement body' (T.context ctx)) := by
  refine .first rfl fun _ _ _ _ => reads_condition.bind ?_
  rintro cond _ rfl
  refine (hbody.tells ctx.inner hctx Pairing.enclosures_branch (by omega)).bindAll
    fun events nodes nodes' hnodes => ?_
  refine .budget
    (f := fun n => Read.branches body ctx n >>= fun rest => pure (.ifThen cond nodes :: rest))
    (g := fun n => Read.branches body' (T.context ctx) n >>= fun rest =>
      pure (.ifThen (cond.rename T.rename) nodes' :: rest)) (le_refl _)
    fun c₁ n n' hc henough => ?_
  rw [Read.branches_eq_iterate, Read.branches_eq_iterate]
  refine (tells_branchRounds hbody hctx henough (by omega) _ _).bindAll fun more rest rest' hrest =>
    .pure (by omega) ⟨?_, .cons (congrArg (Node.ifThen _) hnodes.2) hrest.2⟩
  rw [List.append_nil, hnodes.1, hrest.1, Node.events_cons rfl]
  rfl

end Statements

/-- The bounds of a loop. If only one is given, the loop starts from zero,
which is no name and so the same in both readings. -/
theorem reads_bounds :
    T.Reads c c (fun b b' => b' = (T.rename b.1, T.rename b.2)) Read.bounds Read.bounds :=
  (reads_knownOperand _).bind fun _ _ hfirst => (reads_accept _ rfl).bindEq fun _ => .ite Iff.rfl
    ((reads_knownOperand _).bind fun _ _ hlast => .pure (by omega) ⟨rfl, by
      rw [hfirst.lexeme_eq, hlast.lexeme_eq]⟩)
    (.pure (by omega) ⟨rfl, by dsimp only; rw [hfirst.lexeme_eq, T.rename_zero]⟩)

/-- **Loops.** The counter is bound in a block of its own, which is closed
before the word `roll` is taken. It gives two nodes, the loop and its end. -/
theorem tells_loopStatement (hbody : T.Bodies (c + 1) body body')
    (hctx : ctx.dialect = T.dialect) :
    T.Tells (· = .loop) c (c + 1) T.AllNodes (Read.loopStatement body ctx)
      (Read.loopStatement body' (T.context ctx)) := by
  refine .first rfl fun _ _ _ _ => (reads_identifier _).bind fun counter counter' hcounter =>
    reads_bounds.bind ?_
  rintro ⟨start, stop⟩ _ rfl
  refine reads_openBlock.bindEq fun _ => (reads_bindName hcounter .i32).bindEq fun _ =>
    (hbody.mono (Nat.le_succ _)).tells_closed ctx.inner hctx
      (Pairing.enclosures_single Pairing.describeClosers_roll fun _ _ ht =>
        Pairing.error_const ht rfl) fun events nodes nodes' hnodes =>
          .closeBlock rfl fun _ _ _ => .pure (by omega) ⟨?_, .cons ?_ rfl⟩
  · rw [List.append_nil, hnodes.1, Node.events_cons rfl, Node.events_singleton rfl]
    exact (List.append_nil _).symm
  · rw [hcounter.lexeme_eq]
    exact congrArg (Node.loop _ _ _) hnodes.2

/-- The type that a function returns: any type, in contrast to those of
variables. -/
theorem reads_returnType : T.Reads c (c + 1) Eq Read.returnType Read.returnType := by
  refine .sees fun t _ _ _ => .ite Iff.rfl (tells_unexpected _) ?_
  cases htype : t.kind.valueType? with
  | none =>
    refine tells_take_failAt .invalidType (fun _ _ => rfl) ?_ ?_
    all_goals
      intro u hu
      rw [hu, htype]
  | some type =>
    refine .first (TokenKind.isQuiet_of_valueType? htype) fun u u' hu hkind => ?_
    rw [T.kind_eq hu, hkind, htype]
    exact .pure (by omega) ⟨rfl, rfl⟩

/-- The head of a function breaks off. The message mentions the function and
the token that stands here, and both of them have counterparts. -/
theorem tells_malformedHeader {K : TokenKind → Prop} {α β : Type} {V : List Event → α → β → Prop}
    (h : T.token t t') :
    T.Tells K c d V (Read.malformedHeader t) (Read.malformedHeader t') :=
  .look fun _ _ ht _ => .throw (T.error_at .malformedFunctionHeader
    (fun _ _ => rfl) ht (T.text_lexeme h) (T.text_lexeme ht))

variable (T) in
/-- Parameters of the same type with counterparts for names. -/
def Parameters (p p' : Token × ValueType) : Prop := T.Names p.1 p'.1 ∧ p'.2 = p.2

/-- A name is among the parameters of both heads, or of neither. By induction
on the parameters; names that differ are replaced by names that differ. -/
theorem any_parameter {before before' : List (Token × ValueType)}
    (hbefore : List.Forall₂ T.Parameters before before') (h : T.Names t t') :
    before'.any (·.1.lexeme == t'.lexeme) = before.any (·.1.lexeme == t.lexeme) := by
  induction hbefore with
  | nil => rfl
  | cons hp _ ih =>
    rw [List.any_cons, List.any_cons, ih, hp.1.lexeme_eq, h.lexeme_eq,
      T.rename_injective.beq_eq]

/-- The parameters of a function as the items of a list: each is told those
before it, since its name must not be among them. -/
theorem items_parameter (h : T.token t t') :
    T.Items T.Parameters (Read.parameter t) (Read.parameter t') := by
  intro c before before' hbefore
  refine .sees fun _ _ _ _ => .ite Iff.rfl (tells_malformedHeader h) (Tells.narrow ?_)
  refine reads_storableType.bindEq fun type => (reads_identifier _).bind fun name name' hname => ?_
  rw [any_parameter hbefore hname]
  exact .ite Iff.rfl (tells_failAt_text .redeclared hname.1 (T.text_lexeme hname.1) fun _ _ => rfl)
    (.pure (by omega) ⟨rfl, hname, rfl⟩)

theorem reads_bindParameters {parameters parameters' : List (Token × ValueType)}
    (h : List.Forall₂ T.Parameters parameters parameters') :
    T.Reads c c Eq (Read.bindParameters parameters) (Read.bindParameters parameters') := by
  induction h with
  | nil => exact .pure (by omega) ⟨rfl, rfl⟩
  | @cons p p' _ _ hp _ ih =>
    obtain ⟨name, type⟩ := p
    obtain ⟨name', type'⟩ := p'
    obtain ⟨hname, rfl⟩ := hp
    exact (reads_bindName hname _).bindEq fun _ => ih

/-- The heads that the two readings put together are the same up to names. -/
theorem signature_rename {parameters parameters' : List (Token × ValueType)} (h : T.Names t t')
    (hparameters : List.Forall₂ T.Parameters parameters parameters') (type : ValueType) :
    (⟨type, t'.lexeme, parameters'.map fun p => (p.1.lexeme, p.2)⟩ : Signature) =
      Signature.rename T.rename ⟨type, t.lexeme, parameters.map fun p => (p.1.lexeme, p.2)⟩ := by
  have hmap : (parameters'.map fun p => (p.1.lexeme, p.2)) =
      (parameters.map fun p => (p.1.lexeme, p.2)).map fun p => (T.rename p.1, p.2) := by
    induction hparameters with
    | nil => rfl
    | cons hp _ ih =>
      rw [List.map_cons, ih, hp.1.lexeme_eq, hp.2]
      rfl
  rw [h.lexeme_eq, hmap]
  rfl

/-- **Functions.** The function is declared before its body is read, and the
parameters are bound in a block of their own. The body is read inside the
function, so returning from it is checked against this head. -/
theorem tells_functionStatement (hbody : T.Bodies (c + 1) body body')
    (hctx : ctx.dialect = T.dialect) :
    T.Tells (· = .fnc) c (c + 1) T.AllNodes (Read.functionStatement body ctx)
      (Read.functionStatement body' (T.context ctx)) := by
  refine .first rfl fun _ _ _ _ => reads_returnType.bindEq fun type =>
    (reads_identifier _).bind fun name name' hname => ?_
  have htext := T.text_lexeme hname.1
  rw [Pairing.isTopLevel_context]
  refine .ite Iff.rfl
    ((reads_accept _ rfl).bindEq fun _ => .ite Iff.rfl ?_ (tells_malformedHeader hname.1))
    (tells_failAt_text .nestedFunction hname.1 htext fun _ _ => rfl)
  refine (reads_listUntil rfl (items_parameter hname.1)).bind
    fun parameters parameters' hparameters => ?_
  have hsignature := signature_rename hname hparameters type
  rw [hsignature, ← hparameters.length_eq]
  refine (reads_declare hname type _).bindEq fun _ => reads_openBlock.bindEq fun _ =>
    (reads_bindParameters hparameters).bindEq fun _ => ?_
  refine (hbody.mono (by omega)).tells_closed { ctx.inner with function? := some _ } hctx
    (Pairing.enclosures_single Pairing.describeClosers_end fun _ _ ht =>
      Pairing.error_text .malformedFunctionBody ht htext fun _ _ => rfl)
        fun events nodes nodes' hnodes => .closeBlock rfl fun _ _ _ =>
          .pure (by omega) ⟨?_, .cons (congrArg (Node.function _) hnodes.2) rfl⟩
  rw [List.append_nil, hnodes.1, Node.events_cons rfl, Node.events_nil, List.append_nil]
  rfl

/-- **Statements stay together, get ahead and tell their events.** By cases on
the word that a statement begins with, with the lemma of its reader for each.
A statement takes a token, so bodies need to be known only from the next
cursor on. -/
theorem tells_statement (hbody : T.Bodies (c + 1) body body') (hctx : ctx.dialect = T.dialect) :
    T.Tells (fun _ => True) c (c + 1) T.AllNodes (Read.statement body ctx)
      (Read.statement body' (T.context ctx)) := by
  refine .seesCall fun _ => .ite Iff.rfl tells_callStatement.single (.look fun t t' ht _ => ?_)
  rw [T.kind_eq ht]
  cases t.kind
  case run => exact tells_runStatement hbody hctx
  case dec => exact tells_declaration.single
  case set => exact tells_assignment.single
  case out => exact tells_output.single
  case ifWord => exact tells_ifStatement hbody hctx
  case loop => exact tells_loopStatement hbody hctx
  case back => exact tells_save.single
  case load => exact tells_restore.single
  case fnc => exact tells_functionStatement hbody hctx
  case rtn => exact tells_giveBack.single
  case arithmetic op => exact (tells_calculation op).single
  case lib => exact tells_libraryImport.single
  case init => exact tells_namespaceInit.single
  case qualifier => exact tells_qualifiedCall.single
  all_goals exact tells_unexpected _

/-! ## Lists of statements -/

/-- **One round of a list of statements**: what holds of the rounds after it
from the next cursor on, holds of it from this one. Where the list ends is
told by the verdict on the token that stands there. -/
theorem bodies_round (c : Nat) (later later' : BodyReader) (h : T.Bodies (c + 1) later later') :
    T.Bodies c (Read.round later) (Read.round later') := by
  refine ⟨fun ctx enclosure enclosure' hctx henclosure => ?_,
    fun ctx enclosure enclosure' s nodes s₂ hctx henclosure hs hc hrun => ?_⟩
  · refine .look fun t t' ht _ => ?_
    have hverdicts := Pairing.verdicts_verdict henclosure ht
    rw [hctx]
    dsimp only [Pairing.context]
    generalize enclosure.verdict T.dialect t = v, enclosure'.verdict T.dialect' t' = v'
      at hverdicts
    cases hverdicts with
    | ends => exact .pure (by omega) ⟨Node.events_nil.symm, rfl⟩
    | fails he => exact .throw he
    | goesOn =>
      refine Tells.narrow ((tells_statement h hctx).bindAll fun events first first' hfirst =>
        (h.tells ctx hctx henclosure le_rfl).bindAll fun more rest rest' hrest =>
          .pure (by omega) ⟨?_, hfirst.2.append hrest.2⟩)
      rw [List.append_nil, hfirst.1, hrest.1, Node.events_append]
  · unfold Read.round at hrun
    rw [Read.bind_of_ok (Read.peek_apply s)] at hrun
    cases hverdict : enclosure.verdict ctx.dialect s.current with
    | ends =>
      rw [hverdict] at hrun
      obtain ⟨-, rfl⟩ := EStateM.Result.ok.inj hrun
      exact hverdict
    | fails e =>
      rw [hverdict] at hrun
      cases hrun
    | goesOn =>
      rw [hverdict] at hrun
      obtain ⟨first, s₁, hfirst, hrun⟩ := Read.bind_eq_ok.mp hrun
      obtain ⟨rest, _, hrest, hrun⟩ := Read.bind_eq_ok.mp hrun
      obtain ⟨-, rfl⟩ := EStateM.Result.ok.inj hrun
      obtain ⟨hleads, ⟨_, hc₁, -⟩, -⟩ :=
        ((tells_statement h hctx).on s hs hc trivial).ok first s₁ hfirst
      exact h.ends ctx enclosure enclosure' s₁ rest _ hctx henclosure (hs.of_leads hleads) hc₁ hrest

/-- **Lists of statements end**: a body is read after the word its statement
begins with, and the statements that follow after the first of them. -/
theorem bodies_rounds (henough : T.Enough c n n') (later later' : BodyReader) :
    T.Bodies c (Read.round^[n] later) (Read.round^[n'] later') := by
  refine iterate_of_enough bodies_round (fun c u v hlt => ?_) (fun c u v w hbeyond h => ?_) henough
    later later'
  · refine ⟨fun _ _ _ _ _ => .of_lt hlt, fun _ _ _ s _ _ _ _ hs hc _ => absurd hs.length ?_⟩
    omega
  · exact ⟨fun _ _ _ hctx henclosure =>
      .of_beyond hbeyond (h.tells _ hctx henclosure le_rfl), h.ends⟩

/-- Lists of statements with any budget, the same in both readings. If it is
used up, both of them fail alike. -/
theorem bodies_statements (budget : Nat) :
    T.Bodies c (Read.statements budget) (Read.statements budget) := by
  rw [Read.statements_eq_iterate]
  refine iterate_of_last bodies_round (fun c => ⟨fun _ _ _ _ _ => tells_unexpected _, ?_⟩) budget c
  intro _ _ _ s _ _ _ _ _ _ hrun
  cases hrun

/-- Whole units, with a budget from the tokens of each list. Everything that
is known of reading a program from its tokens is taken from here. -/
theorem tells_unit (library : Bool) :
    T.Tells (fun _ => True) 0 0 T.AllNodes
      (Read.statements (T.length + 1) ⟨T.dialect, 0, none⟩ (.unit library))
      (Read.statements (T.length' + 1) ⟨T.dialect', 0, none⟩ (.unit library)) := by
  rw [Read.statements_eq_iterate, Read.statements_eq_iterate]
  have henough : T.Enough 0 (T.length + 1) (T.length' + 1) :=
    ⟨Nat.lt_succ_self _, Nat.lt_succ_self _⟩
  exact (bodies_rounds henough _ _).reads _ _ _ rfl (.unit library)

end Tandem

end MapleCompiler
