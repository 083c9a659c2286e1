import MapleCompiler.Proofs.Reading.Alone

/-!
# The parser does what the readers do

A parser and a reader of the same statements differ in what they have to keep in order. The
reader is handed the place where it stands, so a place that was left is back by itself. The
parser changes its own state, and has to undo what it did.

It does. Let a reader start from what the parser sees, at the place where the parser stands
(`Parser.Follows`). If the reader succeeds, so does the parser: it puts the reader's nodes
behind those it had, and is then the parser it was, but for what the reader changed. If the
reader fails, the parser fails with the same error, and then sees what the reader saw last;
what it had entered by then it does not leave. Main statements: `Parser.follows_statements`
and, for whole units, `Parser.program_eq`.

The readers to which the parser leaves its smaller parts are not walked through again. That
they lose nothing and move on as the cursor allows is what is known of them as readings on
their own.
-/

namespace MapleCompiler

namespace Parser

variable {p : Parser} {s : ReadState} {α β γ δ : Type}

/-! ## What the parser sees -/

/-- A state whose tokens are those that a parser has from the state's cursor
on, up to the first end mark behind it. -/
structure Shows (p : Parser) (s : ReadState) : Prop where
  pending : s.pending = (p.tokens.drop s.taken).takeWhile (·.kind != .eof)
  final : s.final = ((p.tokens.drop s.taken).find? (·.kind == .eof)).getD (.eof .start)

namespace Shows

/-- What is shown of a parser is what it sees, once it has the cursor and what
is known of that state. -/
theorem view_follow (h : p.Shows s) : (p.follow s).view = s := by
  obtain ⟨hpending, hfinal⟩ := h
  cases s
  unfold view follow
  dsimp only at hpending hfinal ⊢
  rw [← hpending, ← hfinal]

/-- Taking a token takes it from the parser's tokens too: the list that is
left is the stream without one more token at its front. -/
theorem next (h : p.Shows s) : p.Shows s.next := by
  unfold ReadState.next
  split
  · exact h
  · next t rest hpending =>
    have htake := h.pending.symm.trans hpending
    cases hdrop : p.tokens.drop s.taken with
    | nil =>
      rw [hdrop] at htake
      cases htake
    | cons t' more =>
      have hmore : p.tokens.drop (s.taken + 1) = more := by
        rw [← List.tail_drop, hdrop, List.tail_cons]
      rw [hdrop, List.takeWhile_cons] at htake
      split at htake
      · next hword =>
        obtain ⟨rfl, hrest⟩ := List.cons.inj htake
        constructor
        · rw [hmore, hrest]
        · rw [hmore, h.final, hdrop, List.find?_cons_of_neg (by simpa using hword)]
      · cases htake

/-- Moves of a reader stay within the parser's tokens. By induction on the
moves. -/
theorem of_leads {s' : ReadState} (h : s.Leads s') (hs : p.Shows s) : p.Shows s' := by
  induction h with
  | refl => exact hs
  | tail _ hmove ih =>
    cases hmove with
    | take => exact ih.next
    | know hpending hfinal htaken =>
      constructor
      · rw [hpending, htaken, ih.pending]
      · rw [hfinal, htaken, ih.final]

end Shows

/-- **A parser that follows a reader sees what the reader left.** It need not
keep the tokens that are left: they are those of its stream from the cursor
on. -/
theorem view_follow (h : p.view.Leads s) : (p.follow s).view = s :=
  (Shows.of_leads h ⟨rfl, rfl⟩).view_follow

/-- Reading can go on from what a parser sees, whatever its tokens are and
wherever its cursor stands. -/
theorem proper_view (p : Parser) : p.view.Proper := by
  constructor
  · intro t ht
    simpa using List.mem_takeWhile_imp ht
  · unfold view
    dsimp only
    cases hfind : (p.tokens.drop p.cursor).find? (·.kind == .eof) with
    | none => rfl
    | some t => simpa using List.find?_some hfind

/-! ## Parsers and readers -/

/-- A chain of the parser whose first part succeeds goes on with its
second. -/
theorem bind_of_ok {x : Parse α} {f : α → Parse β} {a : α} {p₁ : Parser} (h : x p = .ok a p₁) :
    (x >>= f) p = f a p₁ := by
  show EStateM.bind x f p = _
  rw [EStateM.bind, h]

theorem bind_of_error {x : Parse α} {f : α → Parse β} {e : CompileError} {p₁ : Parser}
    (h : x p = .error e p₁) : (x >>= f) p = .error e p₁ := by
  show EStateM.bind x f p = _
  rw [EStateM.bind, h]

/-- **What the parser does follows the reader**, started from what the parser
sees; `k` says what becomes of the result. After a success the parser is the
one it was, but for what the reader changed. After a failure only what it sees
is known: what it had entered by then it does not leave. -/
structure Follows (k : β → α) (x : Parse α) (r : Read β) (p : Parser) : Prop where
  ok : ∀ b s, r p.view = .ok b s → p.view.Grows s ∧ x p = .ok (k b) (p.follow s)
  error : ∀ e s, r p.view = .error e s →
    p.view.Leads s ∧ ∃ p', x p = .error e p' ∧ p'.tokens = p.tokens ∧ p'.view = s

namespace Follows

variable {k : β → α} {k' : δ → γ} {x : Parse α} {r : Read β} {f : α → Parse γ} {g : β → Read δ}

/-- **Chains follow chains.** What comes second starts where the first part
led, and may know what the reader gave there. The cursor and what is known
have grown in both parts. -/
theorem bind (hx : Follows k x r p)
    (hf : ∀ b s, r p.view = .ok b s → Follows k' (f (k b)) (g b) (p.follow s)) :
    Follows k' (x >>= f) (r >>= g) p := by
  constructor
  · intro c s' h
    obtain ⟨b, s, hb, hc⟩ := Read.bind_eq_ok.mp h
    obtain ⟨hgrows, hx⟩ := hx.ok b s hb
    have hview := view_follow hgrows.leads
    obtain ⟨hgrows', hf⟩ := (hf b s hb).ok c s' (hview.symm ▸ hc)
    rw [hview] at hgrows'
    exact ⟨hgrows.trans hgrows', (bind_of_ok hx).trans hf⟩
  · intro e s' h
    obtain he | ⟨b, s, hb, he⟩ := Read.bind_eq_error.mp h
    · obtain ⟨hleads, p', hx, hp'⟩ := hx.error e s' he
      exact ⟨hleads, p', bind_of_error hx, hp'⟩
    · obtain ⟨hgrows, hx⟩ := hx.ok b s hb
      have hview := view_follow hgrows.leads
      obtain ⟨hleads, p', hf, hp'⟩ := (hf b s hb).error e s' (hview.symm ▸ he)
      rw [hview] at hleads
      exact ⟨hgrows.leads.trans hleads, p', (bind_of_ok hx).trans hf, hp'⟩

theorem pure {a : α} {b : β} (h : k b = a) : Follows k (pure a) (pure b) p := by
  constructor
  · rintro _ _ hb
    cases hb
    exact ⟨.refl _, congrArg (EStateM.Result.ok · p) h.symm⟩
  · rintro _ _ ⟨⟩

theorem throw (e : CompileError) : Follows k (throw e : Parse α) (throw e : Read β) p := by
  constructor
  · rintro _ _ ⟨⟩
  · rintro _ _ he
    cases he
    exact ⟨.refl, p, rfl, rfl, rfl⟩

/-- Both branch on the same condition, which may be used to know where the
parser stands. -/
theorem ite {c : Prop} [Decidable c] {y : Parse α} {q : Read β} (hx : c → Follows k x r p)
    (hy : Follows k y q p) : Follows k (if c then x else y) (if c then r else q) p := by
  split
  · next h => exact hx h
  · exact hy

/-- The reader may do something to its result at the end, as a list of nodes
is put together that the parser has put together on its way. -/
theorem map {j : β → δ} {k' : δ → α} (h : Follows k x r p) (hk : ∀ b, k' (j b) = k b) :
    Follows k' x (r >>= fun b => Pure.pure (j b)) p := by
  constructor
  · intro c s hc
    obtain ⟨b, s₁, hb, hpure⟩ := Read.bind_eq_ok.mp hc
    cases hpure
    rw [hk b]
    exact h.ok b s hb
  · intro e s he
    obtain he | ⟨b, s₁, -, hpure⟩ := Read.bind_eq_error.mp he
    · exact h.error e s he
    · cases hpure

/-- A parser that succeeds does so because the reader does. -/
theorem exists_ok (h : Follows k x r p) {a : α} {p' : Parser} (hx : x p = .ok a p') :
    ∃ b s, r p.view = .ok b s ∧ p.view.Grows s ∧ a = k b ∧ p' = p.follow s := by
  cases hr : r p.view with
  | ok b s =>
    obtain ⟨hgrows, hok⟩ := h.ok b s hr
    obtain ⟨rfl, rfl⟩ := EStateM.Result.ok.inj (hx.symm.trans hok)
    exact ⟨b, s, rfl, hgrows, rfl, rfl⟩
  | error e s =>
    obtain ⟨-, _, herror, -⟩ := h.error e s hr
    cases hx.symm.trans herror

/-- A parser that fails does so because the reader does, and sees what the
reader saw. -/
theorem exists_error (h : Follows k x r p) {e : CompileError} {p' : Parser}
    (hx : x p = .error e p') :
    ∃ s, r p.view = .error e s ∧ p.view.Leads s ∧ p'.tokens = p.tokens ∧ p'.view = s := by
  cases hr : r p.view with
  | ok b s =>
    obtain ⟨-, hok⟩ := h.ok b s hr
    cases hx.symm.trans hok
  | error e s =>
    obtain ⟨hleads, _, herror, htokens, hview⟩ := h.error e s hr
    obtain ⟨rfl, rfl⟩ := EStateM.Result.error.inj (hx.symm.trans herror)
    exact ⟨s, rfl, hleads, htokens, hview⟩

theorem get {f : Parser → Parse α} (h : Follows k (f p) r p) :
    Follows k (MonadState.get >>= f) r p := ⟨h.ok, h.error⟩

/-- The reader may look at what it starts from, which is what the parser
sees. -/
theorem get_right {g : ReadState → Read β} (h : Follows k x (g p.view) p) :
    Follows k x (MonadState.get >>= g) p := ⟨h.ok, h.error⟩

theorem peek {f : Token → Parse α} {g : Token → Read β}
    (h : Follows k (f p.view.current) (g p.view.current) p) :
    Follows k (lift Read.peek >>= f) (Read.peek >>= g) p := ⟨h.ok, h.error⟩

theorem seesCall {f : Bool → Parse α} {g : Bool → Read β}
    (h : Follows k (f p.view.startsCall) (g p.view.startsCall) p) :
    Follows k (lift Read.seesCall >>= f) (Read.seesCall >>= g) p := ⟨h.ok, h.error⟩

end Follows

/-- A reader that loses nothing is followed, since the parser keeps no more of
what is known than the reader does. -/
theorem follows_of_grows {r : Read α} (hok : ∀ a s, r p.view = .ok a s → p.view.Grows s)
    (herror : ∀ e s, r p.view = .error e s → p.view.Leads s) : Follows id (lift r) r p := by
  constructor
  · intro a s ha
    refine ⟨hok a s ha, ?_⟩
    unfold lift
    rw [ha]
    rfl
  · intro e s he
    have hleads := herror e s he
    refine ⟨hleads, p.follow s, ?_, rfl, view_follow hleads⟩
    unfold lift
    rw [he]

/-- **What is left to a reader** is done as the reader does it. What is known
of the reader on its own is enough, at the kinds of tokens that it is known
for. -/
theorem follows_lift_at {r : Read α} {y : Read β} {K : TokenKind → Prop} {d : Nat}
    {V : List Event → α → β → Prop} (h : (Tandem.alone p.dialect p.view).Tells K 0 d V r y)
    (hk : K p.view.current.kind) : Follows id (lift r) r p := by
  have hfirst := Tandem.first_alone (d := p.dialect) p.proper_view
  exact follows_of_grows (fun _ _ => h.grows hfirst (Nat.zero_le _) hk)
    fun _ _ => h.leads_of_error hfirst (Nat.zero_le _) hk

theorem follows_lift {r : Read α} {y : Read β} {d : Nat} {V : List Event → α → β → Prop}
    (h : (Tandem.alone p.dialect p.view).Tells (fun _ => True) 0 d V r y) :
    Follows id (lift r) r p :=
  follows_lift_at h trivial

theorem follows_advance (p : Parser) : Follows id (lift Read.advance) Read.advance p := by
  refine follows_of_grows (fun t s h => ?_) fun e s h => ?_
  · obtain ⟨-, rfl⟩ := EStateM.Result.ok.inj ((Read.advance_apply p.view).symm.trans h)
    exact .next p.view
  · cases (Read.advance_apply p.view).symm.trans h

theorem follows_fails {r : Read α} (h : ∀ s, ∃ e, r s = .error e s) (k : α → α) (p : Parser) :
    Follows k (lift r) r p := by
  obtain ⟨e, he⟩ := h p.view
  constructor
  · intro a s ha
    cases he.symm.trans ha
  · intro e' s he'
    obtain ⟨rfl, rfl⟩ := EStateM.Result.error.inj (he.symm.trans he')
    refine ⟨.refl, p, ?_, rfl, rfl⟩
    unfold lift
    rw [he]
    rfl

theorem follows_unexpected (expected : String) (k : α → α) (p : Parser) :
    Follows k (lift (Read.unexpected expected)) (Read.unexpected expected) p :=
  follows_fails (fun _ => ⟨_, rfl⟩) k p

/-- A statement that is left to a reader as a whole. Its node comes behind
those from before. -/
theorem follows_single {x : Read Node} {y : Read β} {K : TokenKind → Prop} {d : Nat}
    {V : List Event → Node → β → Prop} (h : (Tandem.alone p.dialect p.view).Tells K 0 d V x y)
    (hk : K p.view.current.kind) (nodes : List Node) :
    Follows (nodes ++ ·) (single x nodes) (do return [← x]) p :=
  (follows_lift_at h hk).bind fun _ _ _ => .pure rfl

/-! ## Statements with a body -/

/-- A parser of bodies that follows a reader of bodies, wherever it stands.
The reader is given the place where the parser stands, and the nodes before
the body stay before its own. -/
def BodyFollows (body : BodyParser) (reader : BodyReader) : Prop :=
  ∀ p enclosure nodes,
    Follows (nodes ++ ·) (body enclosure nodes) (reader p.context enclosure) p

variable {body : BodyParser} {reader : BodyReader} {nodes : List Node}

/-- **What is entered and left again** does not show: the parser sees the same
inside, and leaving takes back what entering did, whatever was read in
between. -/
theorem follows_within {x : Parse α} {r : Read α} {enter leave : Parser → Parser}
    (hview : (enter p).view = p.view) (htokens : (enter p).tokens = p.tokens)
    (hleave : ∀ s, leave ((enter p).follow s) = p.follow s) (h : Follows id x r (enter p)) :
    Follows id (do modify enter; let a ← x; modify leave; return a) r p := by
  have henter : (modify enter : Parse PUnit) p = .ok ⟨⟩ (enter p) := rfl
  constructor
  · intro a s ha
    rw [← hview] at ha ⊢
    obtain ⟨hgrows, hx⟩ := h.ok a s ha
    refine ⟨hgrows, ?_⟩
    rw [bind_of_ok henter, bind_of_ok hx, ← hleave s]
    rfl
  · intro e s he
    rw [← hview] at he ⊢
    obtain ⟨hleads, p', hx, htokens', hp'⟩ := h.error e s he
    refine ⟨hleads, p', ?_, htokens'.trans htokens, hp'⟩
    rw [bind_of_ok henter, bind_of_error hx]

/-- A body leads back to the depth that the parser had. Inside of it the depth
is one more, which is the place that the reader of the body is given. -/
theorem follows_block (h : BodyFollows body reader) (enclosure : Enclosure) {ctx : Context}
    (hctx : p.context = ctx) :
    Follows id (block body enclosure) (reader ctx.inner enclosure) p := by
  subst hctx
  exact follows_within rfl rfl (fun _ => rfl) (h { p with depth := p.depth + 1 } enclosure [])

/-- A function body leads back to no function, which is where it started:
functions are only parsed at the top level. -/
theorem follows_functionBody (h : BodyFollows body reader) (signature : Signature)
    {ctx : Context} (htop : ctx.isTopLevel = true) (hctx : p.context = ctx) :
    Follows id (functionBody body signature)
      (reader { ctx.inner with function? := some signature }
        (.closedBy [.endWord] (.malformedFunctionBody signature.name))) p := by
  subst hctx
  have hnone : p.function? = none := by
    have hfunction := (Bool.and_eq_true_iff.mp htop).2
    exact Option.isNone_iff_eq_none.mp hfunction
  refine follows_within rfl rfl (fun s => ?_)
    (follows_block (p := { p with function? := some signature }) h _ rfl)
  unfold follow
  rw [hnone]

/-- The body of `run` is parsed in a block, with the rest of the list. -/
theorem follows_runStatement (h : BodyFollows body reader) (nodes : List Node) (p : Parser) :
    Follows (nodes ++ ·) (runStatement body nodes) (Read.runStatement reader p.context) p :=
  .bind (follows_advance p) fun _ _ _ =>
    .bind (follows_lift (Tandem.reads_knownOperand _)) fun _ _ _ =>
      .bind (follows_block h .run rfl) fun _ _ _ => .pure rfl

/-- A round of the branches of a condition. -/
def branchRound (body : BodyParser) (later : List Node → Parse (List Node))
    (nodes : List Node) : Parse (List Node) := do
  match (← lift Read.peek).kind with
  | .elifWord =>
    let _ ← lift Read.advance
    let cond ← lift Read.condition
    let inner ← branchBody body
    later (nodes ++ [.elseIf cond inner])
  | .elseWord =>
    let _ ← lift Read.advance
    let inner ← block body (.closedBy [.endWord] (.unexpectedEof "'end'"))
    later (nodes ++ [.otherwise inner])
  | _ =>
    let _ ← lift (Read.expect .endWord "'end'")
    return nodes ++ [.endIf]

theorem branches_eq_iterate (body : BodyParser) (n : Nat) :
    branches body n = (branchRound body)^[n] fun _ => lift (Read.unexpected "'end'") := by
  induction n with
  | zero => rfl
  | succ n ih =>
    rw [Function.iterate_succ_apply', ← ih]
    rfl

/-- A parser of branches that follows a reader of branches, at a place. All
branches of a condition are at the same place, which the parser has to come
back to after each of them. -/
def BranchesFollow (ctx : Context) (later : List Node → Parse (List Node))
    (reader : Read (List Node)) : Prop :=
  ∀ (p : Parser) nodes, p.context = ctx → Follows (nodes ++ ·) (later nodes) reader p

/-- **One round of branches**, by the word that stands here. The body leads
back to the place of the condition, where the rest is parsed. -/
theorem follows_branchRound {ctx : Context} {later : List Node → Parse (List Node)}
    {rest : Read (List Node)} (h : BodyFollows body reader)
    (hlater : BranchesFollow ctx later rest) :
    BranchesFollow ctx (branchRound body later) (Read.branchRound reader ctx rest) := by
  rintro p nodes rfl
  refine .peek ?_
  cases p.view.current.kind
  case elifWord =>
    refine .bind (follows_advance _) fun _ _ _ =>
      .bind (follows_lift Tandem.reads_condition) fun cond _ _ =>
        .bind (follows_block h _ rfl) fun inner _ _ => .map (hlater _ _ rfl) fun _ => ?_
    exact List.append_cons ..
  case elseWord =>
    refine .bind (follows_advance _) fun _ _ _ =>
      .bind (follows_block h _ rfl) fun inner _ _ => .map (hlater _ _ rfl) fun _ => ?_
    exact List.append_cons ..
  all_goals exact .bind (follows_lift (Tandem.reads_expect _ _ rfl)) fun _ _ _ => .pure rfl

/-- **Rounds follow rounds**, if what comes after the last of them does. By
induction on their number. -/
theorem follows_branchRounds {ctx : Context} {later : List Node → Parse (List Node)}
    {rest : Read (List Node)} (h : BodyFollows body reader)
    (hlater : BranchesFollow ctx later rest) (n : Nat) :
    BranchesFollow ctx ((branchRound body)^[n] later) ((Read.branchRound reader ctx)^[n] rest) := by
  induction n with
  | zero => exact hlater
  | succ n ih =>
    rw [Function.iterate_succ_apply', Function.iterate_succ_apply']
    exact follows_branchRound h ih

theorem follows_branches (h : BodyFollows body reader) (n : Nat) (ctx : Context) :
    BranchesFollow ctx (branches body n) (Read.branches reader ctx n) := by
  rw [branches_eq_iterate, Read.branches_eq_iterate]
  exact follows_branchRounds h (fun p _ _ => follows_unexpected _ _ p) n

/-- Conditions with their branches. The parser puts the nodes of the branches
together on its way, and the reader at the end. -/
theorem follows_ifStatement (h : BodyFollows body reader) (nodes : List Node) (p : Parser) :
    Follows (nodes ++ ·) (ifStatement body nodes) (Read.ifStatement reader p.context) p := by
  refine .bind (follows_advance p) fun _ _ _ =>
    .bind (follows_lift Tandem.reads_condition) fun cond _ _ =>
      .bind (follows_block h _ rfl) fun inner _ _ => .get (.get_right ?_)
  refine .map (follows_branches h _ _ _ _ rfl) fun _ => ?_
  exact List.append_cons ..

/-- A name that was read is a name, in whatever comes next. -/
theorem names_of_identifier {expected : String} {t : Token} {s : ReadState}
    (h : Read.identifier expected p.view = .ok t s) (q : Parser) :
    (Tandem.alone q.dialect q.view).Names t t := by
  obtain ⟨hkind, rfl, -⟩ := Read.expect_eq_ok.mp h
  exact ⟨⟨rfl, trivial⟩, hkind⟩

/-- Loops, whose block is opened and closed by the parser as by the reader. -/
theorem follows_loopStatement (h : BodyFollows body reader) (nodes : List Node) (p : Parser) :
    Follows (nodes ++ ·) (loopStatement body nodes) (Read.loopStatement reader p.context) p :=
  .bind (follows_advance p) fun _ _ _ =>
    .bind (follows_lift (Tandem.reads_identifier _)) fun _ _ hcounter =>
      .bind (follows_lift Tandem.reads_bounds) fun _ _ _ =>
        .bind (follows_lift Tandem.reads_openBlock) fun _ _ _ =>
          .bind (follows_lift (Tandem.reads_bindName (names_of_identifier hcounter _) _))
            fun _ _ _ => .bind (follows_block h _ rfl) fun _ _ _ =>
              .bind (follows_lift Tandem.reads_closeBlock) fun _ _ _ =>
                .bind (follows_advance _) fun _ _ _ => .pure rfl

/-- The parameters of a head are names, in whatever comes next. The list was
read on its own, so they are what they are to any later reader. -/
theorem parameters_of_listUntil {function : Token} {expected : String} {s : ReadState}
    {parameters : List (Token × ValueType)}
    (h : Read.listUntil .colon expected (Read.parameter function) p.view = .ok parameters s)
    (q : Parser) :
    List.Forall₂ (Tandem.alone q.dialect q.view).Parameters parameters parameters := by
  let T := Tandem.alone p.dialect p.view
  have htells : T.Reads 0 0 (List.Forall₂ T.Parameters)
      (Read.listUntil .colon expected (Read.parameter function))
      (Read.listUntil .colon expected (Read.parameter function)) :=
    Tandem.reads_listUntil rfl (Tandem.items_parameter ⟨rfl, trivial⟩)
  obtain ⟨-, _, _, -, -, hparameters⟩ :=
    htells.changes (Tandem.first_alone p.proper_view) (Nat.zero_le _) trivial h
  clear h htells
  induction hparameters with
  | nil => exact .nil
  | cons hp _ ih => exact .cons ⟨⟨⟨rfl, trivial⟩, hp.1.2⟩, rfl⟩ ih

/-- Functions. The parser enters the function after its head was read, and
leaves it before the word that closes it is taken. -/
theorem follows_functionStatement (h : BodyFollows body reader) (nodes : List Node)
    (p : Parser) :
    Follows (nodes ++ ·) (functionStatement body nodes)
      (Read.functionStatement reader p.context) p := by
  refine .bind (follows_advance p) fun _ _ _ =>
    .bind (follows_lift Tandem.reads_returnType) fun type _ _ =>
      .bind (follows_lift (Tandem.reads_identifier _)) fun name _ hname => .get <| .ite (fun htop =>
        .bind (follows_lift (Tandem.reads_accept _ rfl)) fun _ _ _ => .ite (fun _ => ?_)
          (follows_fails (fun _ => ⟨_, rfl⟩) _ _))
        (follows_fails (fun _ => ⟨_, rfl⟩) _ _)
  exact .bind (follows_lift (Tandem.reads_listUntil rfl (Tandem.items_parameter ⟨rfl, trivial⟩)))
    fun _ _ hparameters =>
      .bind (follows_lift (Tandem.reads_declare (names_of_identifier hname _) _ _)) fun _ _ _ =>
        .bind (follows_lift Tandem.reads_openBlock) fun _ _ _ =>
          .bind (follows_lift (Tandem.reads_bindParameters
            (parameters_of_listUntil hparameters _))) fun _ _ _ =>
              .bind (follows_functionBody h _ htop rfl) fun _ _ _ =>
                .bind (follows_lift Tandem.reads_closeBlock) fun _ _ _ =>
                  .bind (follows_advance _) fun _ _ _ => .pure rfl

/-! ## Lists of statements -/

/-- **One statement**, whatever it is. By cases on the word it begins with:
statements without a body are left to the readers, and each of the others has
its lemma. -/
theorem follows_statement (h : BodyFollows body reader) (nodes : List Node) (p : Parser) :
    Follows (nodes ++ ·) (statement body nodes) (Read.statement reader p.context) p := by
  refine .seesCall (.ite (fun _ => follows_single Tandem.tells_callStatement trivial nodes)
    (.peek ?_))
  cases hk : p.view.current.kind
  case run => exact follows_runStatement h nodes p
  case dec => exact follows_single Tandem.tells_declaration hk nodes
  case set => exact follows_single Tandem.tells_assignment hk nodes
  case out => exact follows_single Tandem.tells_output hk nodes
  case ifWord => exact follows_ifStatement h nodes p
  case loop => exact follows_loopStatement h nodes p
  case back => exact follows_single Tandem.tells_save hk nodes
  case load => exact follows_single Tandem.tells_restore hk nodes
  case fnc => exact follows_functionStatement h nodes p
  case rtn => exact .get (follows_single Tandem.tells_giveBack hk nodes)
  case arithmetic op => exact follows_single (Tandem.tells_calculation op) hk nodes
  case lib => exact .get (follows_single Tandem.tells_libraryImport hk nodes)
  case init => exact follows_single Tandem.tells_namespaceInit hk nodes
  case qualifier => exact follows_single Tandem.tells_qualifiedCall hk nodes
  all_goals exact follows_unexpected _ _ _

/-- A round of a list of statements. Bodies inside of it are parsed with one
round less, as are the statements that follow. -/
def round (later : BodyParser) : BodyParser := fun enclosure nodes => do
  match enclosure.verdict (← get).dialect (← lift Read.peek) with
  | .ends => return nodes
  | .fails error => throw error
  | .goesOn =>
    let nodes ← statement later nodes
    later enclosure nodes

theorem statements_eq_iterate (n : Nat) :
    statements n = round^[n] fun _ _ => lift (Read.unexpected "a statement") := by
  induction n with
  | zero => rfl
  | succ n ih =>
    rw [Function.iterate_succ_apply', ← ih]
    rfl

/-- **One round of a list of statements.** The parser hands on the nodes so
far, where the reader puts lists together. -/
theorem follows_round {later : BodyParser} {rest : BodyReader} (h : BodyFollows later rest) :
    BodyFollows (round later) (Read.round rest) := by
  intro p enclosure nodes
  refine .get (.peek ?_)
  have hdialect : p.context.dialect = p.dialect := rfl
  rw [hdialect]
  cases enclosure.verdict p.dialect p.view.current with
  | ends => exact .pure (List.append_nil nodes)
  | fails error => exact .throw error
  | goesOn =>
    refine .bind (follows_statement h nodes p) fun first s _ =>
      .map (h (p.follow s) enclosure (nodes ++ first)) fun rest => ?_
    exact (List.append_assoc nodes first rest).symm

/-- **Rounds follow rounds**, if what comes after the last of them does. By
induction on their number. -/
theorem follows_rounds {later : BodyParser} {rest : BodyReader} (h : BodyFollows later rest)
    (n : Nat) : BodyFollows (round^[n] later) (Read.round^[n] rest) := by
  induction n with
  | zero => exact h
  | succ n ih =>
    rw [Function.iterate_succ_apply', Function.iterate_succ_apply']
    exact follows_round ih

/-- **Lists of statements**, with any budget. When the budget is used up, both
of them fail alike. -/
theorem follows_statements (budget : Nat) :
    BodyFollows (statements budget) (Read.statements budget) := by
  rw [statements_eq_iterate, Read.statements_eq_iterate]
  exact follows_rounds (fun p _ _ => follows_unexpected _ _ p) budget

/-! ## Units -/

/-- A parser whose cursor has not passed the first end mark sees what is left
before it. -/
theorem atCursor_view {tokens : List Token} (htokens : p.tokens = Token.terminated tokens)
    (hle : p.cursor ≤ (Token.words tokens).length) : p.view.AtCursor tokens := by
  obtain ⟨rest, hrest⟩ := Token.upToEnd_isPrefix tokens
  rw [Token.upToEnd, List.append_assoc, List.singleton_append] at hrest
  have hdrop : p.tokens.drop p.cursor =
      (Token.words tokens).drop p.cursor ++ ReadState.endMark tokens :: rest := by
    rw [htokens, ← hrest, List.drop_append_of_le_length hle]
  have hwords : ∀ t ∈ (Token.words tokens).drop p.cursor, t.kind ≠ .eof :=
    fun t ht => Token.kind_of_mem_words (List.mem_of_mem_drop ht)
  refine ⟨?_, ?_, hle⟩
  · show (p.tokens.drop p.cursor).takeWhile (·.kind != .eof) = _
    rw [hdrop]
    exact Token.words_append hwords (Token.kind_endMark tokens) rest
  · show ((p.tokens.drop p.cursor).find? (·.kind == .eof)).getD (.eof .start) = _
    rw [hdrop, List.find?_append,
      List.find?_eq_none.mpr fun t ht => by simpa using hwords t ht,
      List.find?_cons_of_pos (by simpa using Token.kind_endMark tokens), Option.none_or]
    rfl

/-- The parser sees the whole unit at first, and nothing is known yet. -/
theorem view_ofTokens (d : Dialect) (library : Bool) (tokens : List Token) :
    (ofTokens d library tokens).view = ReadState.ofTokens tokens := by
  have hview := atCursor_view (p := ofTokens d library tokens) rfl (Nat.zero_le _)
  show ReadState.mk (ofTokens d library tokens).view.pending
    (ofTokens d library tokens).view.final 0 _ _ _ = _
  rw [hview.pending_eq, hview.final_eq]
  rfl

/-- **A parser of a unit follows the reader of the unit.** Its budget is the
one the reader has, from the words of the unit. -/
theorem follows_parse (d : Dialect) (library : Bool) (tokens : List Token) :
    Follows id parse (Read.statements ((Token.words tokens).length + 1) ⟨d, 0, none⟩
      (.unit library)) (ofTokens d library tokens) := by
  have hfollows := follows_statements ((ofTokens d library tokens).view.pending.length + 1)
    (ofTokens d library tokens) (.unit library) []
  have hlength : (ofTokens d library tokens).view.pending.length = (Token.words tokens).length := by
    rw [view_ofTokens]
    rfl
  have hparse : parse (ofTokens d library tokens) =
      statements ((ofTokens d library tokens).view.pending.length + 1) (.unit library) []
        (ofTokens d library tokens) := rfl
  rw [hlength] at hfollows hparse
  exact ⟨fun nodes s h => hparse ▸ hfollows.ok nodes s h,
    fun e s h => hparse ▸ hfollows.error e s h⟩

/-- **The parser finds the program that the readers find**, or the same error.
What is proved of reading a unit from its tokens is so proved of the parser,
which is the one that is run. -/
theorem program_eq (d : Dialect) (library : Bool) (tokens : List Token) :
    program d library tokens = Program.ofTokens d library tokens := by
  have hview := view_ofTokens d library tokens
  have hfollows := follows_parse d library tokens
  unfold program Program.ofTokens
  dsimp only
  cases hread : Read.statements ((ReadState.ofTokens tokens).pending.length + 1) ⟨d, 0, none⟩
      (.unit library) (ReadState.ofTokens tokens) with
  | ok nodes s =>
    obtain ⟨-, hok⟩ := hfollows.ok nodes s (hview.symm ▸ hread)
    rw [hok]
    rfl
  | error e s =>
    obtain ⟨-, p', herror, -⟩ := hfollows.error e s (hview.symm ▸ hread)
    rw [herror]

end Parser

end MapleCompiler
