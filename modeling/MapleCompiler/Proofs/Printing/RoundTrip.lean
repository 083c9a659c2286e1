import MapleCompiler.Program.Equality
import MapleCompiler.Proofs.Acceptance.Soundness
import MapleCompiler.Proofs.Printing.Statements

/-!
# The source text of a program is read back

The readers of statements with a body are given the reader of bodies. If it
reads back every list that is acceptable (`Read.BodyReads`), they read back
their statements; lists then follow by induction on the budget of their reader,
which exceeds the number of words that are left. A body stops where it should
because the words after it begin with the word that closes it.

Together with `Program.accepted_of_ofText`, that programs which are read are
acceptable, this gives the round trip: the source text of a program that was
read is read back.
-/

namespace MapleCompiler

open Source

/-! ## Where lists end -/

/-- **The nodes fit into a list** that ends before a word of a kind. -/
def Enclosure.Fits (nodes : List Node) (kind : TokenKind) : Enclosure → Prop
  | unit library =>
    kind = .eof ∧ (library = true → ∀ node ∈ nodes, node.isLibraryPart = true)
  | run => kind = .eof ∨ kind.isTerminator = true
  | closedBy closers _ => kind ∈ closers ∧ ∀ k ∈ closers, k.isTerminator = true

namespace Enclosure

variable {e : Enclosure} {kind : TokenKind} {nodes : List Node} {d : Dialect} {t : Token}

/-- A list ends at a word that closes a block, or at the end of the text. -/
theorem Fits.stops (h : e.Fits nodes kind) : kind = .eof ∨ kind.isTerminator = true := by
  cases e with
  | unit library => exact .inl h.1
  | run => exact h
  | closedBy closers onEof => exact .inr (h.2 kind h.1)

theorem Fits.ends (h : e.Fits nodes kind) (ht : t.kind = kind) : e.verdict d t = .ends := by
  subst ht
  cases e with
  | unit library => exact verdict_unit_eq_ends.mpr h.1
  | run => exact verdict_run_eq_ends.mpr h
  | closedBy closers onEof => exact verdict_closedBy_eq_ends.mpr h.1

/-- The last nodes of a list fit into it, whatever stands before them. -/
theorem Fits.append {first : List Node} (h : e.Fits (first ++ nodes) kind) :
    e.Fits nodes kind := by
  cases e with
  | unit library =>
    exact ⟨h.1, fun hl node hnode => h.2 hl node (List.mem_append.mpr (.inr hnode))⟩
  | run => exact h
  | closedBy closers onEof => exact h

/-- A list goes on at a node that begins a statement. The words that close it
begin none. -/
theorem Fits.goesOn {node : Node} {part part' : Part} (h : e.Fits (node :: nodes) kind)
    (hpart : part.isFinal = true) (hafter : part.after? node = some part')
    (ht : t.kind = firstKind node) : e.verdict d t = .goesOn := by
  have hstarts : (firstKind node).isTerminator = false ∧ firstKind node ≠ .eof := by
    cases part <;> first | cases hpart; done | skip
    all_goals cases node <;> first | cases hafter; done | exact ⟨rfl, nofun⟩
  rw [verdict_eq_goesOn, ht]
  refine ⟨hstarts.2, hstarts.1, ?_⟩
  cases e with
  | unit library =>
    intro hl
    have hnode := h.2 hl node List.mem_cons_self
    cases node <;> first | rfl | cases hnode
  | run => trivial
  | closedBy closers onEof =>
    intro hmem
    have := h.2 _ hmem
    rw [hstarts.1] at this
    cases this

end Enclosure

namespace Read

variable {d : Dialect} {ctx : Context} {F F' : Facts} {part part' : Part} {xs : List String}
  {s : ReadState} {body : BodyReader} {n : Nat}

/-! ## Bodies -/

/-- **A reader of bodies reads back** all acceptable lists with less than `n`
words after them. -/
def BodyReads (d : Dialect) (body : BodyReader) (n : Nat) : Prop :=
  ∀ {ctx : Context} {e : Enclosure} {F F' : Facts} {part' : Part} {nodes : List Node}
    {kind : TokenKind} {s : ReadState} {xs : List String},
    Accepts d.vocabulary ctx .list F nodes part' F' → part'.isFinal = true → e.Fits nodes kind →
    Breaks d kind xs → s.At d F (bodyWords d nodes ++ xs) → (bodyWords d nodes ++ xs).length < n →
    ∃ nodes' s', body ctx e s = .ok nodes' s' ∧
      Node.bodyUnplaced nodes' = Node.bodyUnplaced nodes ∧ s'.At d F' xs

/-- **The first statement of a list is read back.** Its nodes are the first
ones; the others are acceptable after it, and their words are left. -/
def ReadsFirst (d : Dialect) (ctx : Context) (x : Read (List Node)) (s : ReadState)
    (nodes : List Node) (part' : Part) (F' : Facts) (xs : List String) : Prop :=
  ∃ first rest first' part F s', nodes = first ++ rest ∧ first ≠ [] ∧ x s = .ok first' s' ∧
    Node.bodyUnplaced first' = Node.bodyUnplaced first ∧ (part = .list ∨ part = .last) ∧
    Accepts d.vocabulary ctx part F rest part' F' ∧ s'.At d F (bodyWords d rest ++ xs)

/-- A word that closes a block breaks off the list before it: no statement
goes on with it. -/
theorem breaks_terminator {kind : TokenKind} {x : String} (hx : Lexeme d kind x)
    (hk : kind.isTerminator = true) (xs : List String) : Breaks d kind (x :: xs) := by
  refine ⟨hx, ?_, fun ho => ?_⟩
  · cases kind <;> first | rfl | cases hk
  · cases kind <;> first | cases ho; done | cases hk

/-- The words that may come next where a list cannot stop. -/
def closers : Part → List TokenKind
  | .branches => [.endWord, .elifWord, .elseWord]
  | .closing => [.endWord]
  | .rolling => [.roll]
  | _ => []

theorem isTerminator_of_mem_closers {kind : TokenKind} (h : kind ∈ closers part) :
    kind.isTerminator = true := by
  revert kind
  cases part <;> decide

/-- Where a list cannot stop, one of these words comes next. -/
theorem breaks_closers {nodes : List Node} (h : Accepts d.vocabulary ctx part F nodes part' F')
    (hpart : part.isFinal = false) (hfinal : part'.isFinal = true) (xs : List String) :
    ∃ kind ∈ closers part, Breaks d kind (bodyWords d nodes ++ xs) := by
  cases h with
  | nil => rw [hpart] at hfinal; cases hfinal
  | @cons _ _ _ _ _ _ _ _ node rest hafter hnode hbody hinside hrest =>
    refine ⟨firstKind node, ?_, ?_⟩
    · cases part <;> first | cases hpart; done | skip
      all_goals cases node <;> first | cases hafter; done | simp only [firstKind, closers]; decide
    · rw [bodyWords, List.append_assoc]
      exact breaks_nodeWords hnode _

/-- **A body is read back** up to the words that close it. They are the first
of what comes after it in the list around it, which is not finished yet. -/
theorem BodyReads.closed {ctx' : Context} {F₁ G : Facts} {inside : Part} {inner rest : List Node}
    (hbody : BodyReads d body n) (onEof : Fault)
    (hinner : Accepts d.vocabulary ctx .list F inner inside G) (hinside : inside.isFinal = true)
    (hrest : Accepts d.vocabulary ctx' part F₁ rest part' F') (hpart : part.isFinal = false)
    (hfinal : part'.isFinal = true) (h : s.At d F (bodyWords d inner ++ (bodyWords d rest ++ xs)))
    (hlength : (bodyWords d inner ++ (bodyWords d rest ++ xs)).length < n) :
    ∃ inner' s', body ctx (.closedBy (closers part) onEof) s = .ok inner' s' ∧
      Node.bodyUnplaced inner' = Node.bodyUnplaced inner ∧ s'.At d G (bodyWords d rest ++ xs) := by
  obtain ⟨kind, hkind, hbreaks⟩ := breaks_closers hrest hpart hfinal xs
  exact hbody hinner hinside ⟨hkind, fun k hk => isTerminator_of_mem_closers hk⟩ hbreaks h hlength

/-! ## Conditionals -/

/-- **The branches of a conditional** after the first one, by induction on the
nodes. Each branch takes a word, so the budget is enough for them. -/
theorem reads_branches {budget : Nat} {nodes : List Node} (hbody : BodyReads d body n)
    (h : Accepts d.vocabulary ctx part F nodes part' F')
    (hpart : part = .branches ∨ part = .closing) (hfinal : part'.isFinal = true)
    (hs : s.At d F (bodyWords d nodes ++ xs)) (hlength : (bodyWords d nodes ++ xs).length < n)
    (hbudget : (bodyWords d nodes ++ xs).length < budget) :
    ReadsFirst d ctx (branches body ctx budget) s nodes part' F' xs := by
  induction nodes generalizing part F s budget with
  | nil =>
    cases h with
    | nil => obtain rfl | rfl := hpart <;> cases hfinal
  | cons node rest ih =>
    obtain ⟨budget, rfl⟩ : ∃ m, budget = m + 1 := ⟨budget - 1, by omega⟩
    rw [bodyWords, List.append_assoc] at hs hlength hbudget
    cases h with
    | @cons _ _ next inside _ _ G _ _ _ hafter hnode hinner hinside hrest =>
    have hkind : s.current.kind = firstKind node := (hs.breaks (breaks_nodeWords hnode _)).1
    have hrestLength : (bodyWords d rest ++ xs).length < n ∧
        (bodyWords d rest ++ xs).length < budget := by
      have hne := List.length_pos_iff.mpr (nodeWords_ne_nil d node)
      rw [List.length_append] at hlength hbudget
      omega
    cases node
    case elseIf c inner =>
      obtain rfl : .branches = next := by obtain rfl | rfl := hpart <;> cases hafter; rfl
      have hinner : Accepts d.vocabulary ctx.inner .list F inner inside G := hinner
      rw [nodeWords, List.cons_append, List.append_assoc] at hs hlength
      simp only [List.length_cons, List.length_append] at hlength
      obtain ⟨s₁, hcondition, h₁⟩ := reads_condition hs.next hnode.2
      obtain ⟨inner', s₂, hread, hsame, h₂⟩ := hbody.closed (.unexpectedEof "'end'") hinner hinside
        hrest rfl hfinal h₁ (by simp only [List.length_append]; omega)
      obtain ⟨first, rest', first', part₁, F₁, s', rfl, -, hbranches, hsame', hpart₁, haccepts,
        h'⟩ :=
        ih hrest (.inl rfl) h₂ hrestLength.1 hrestLength.2
      refine ⟨.elseIf c inner :: first, rest', .elseIf c inner' :: first', part₁, F₁, s', rfl,
        List.cons_ne_nil _ _, ?_, ?_, hpart₁, haccepts, h'⟩
      · exact (branches_elif_eq_ok hkind).mpr ⟨c, s₁, inner', s₂, first', hcondition, hread,
          hbranches, rfl⟩
      · simp only [Node.bodyUnplaced, Node.unplaced, hsame, hsame']
    case otherwise inner =>
      obtain rfl : .closing = next := by obtain rfl | rfl := hpart <;> cases hafter; rfl
      have hinner : Accepts d.vocabulary ctx.inner .list F inner inside G := hinner
      rw [nodeWords, List.cons_append] at hs hlength
      simp only [List.length_cons, List.length_append] at hlength
      obtain ⟨inner', s₁, hread, hsame, h₁⟩ := hbody.closed (.unexpectedEof "'end'") hinner hinside
        hrest rfl hfinal hs.next (by simp only [List.length_append]; omega)
      obtain ⟨first, rest', first', part₁, F₁, s', rfl, -, hbranches, hsame', hpart₁, haccepts,
        h'⟩ :=
        ih hrest (.inr rfl) h₁ hrestLength.1 hrestLength.2
      refine ⟨.otherwise inner :: first, rest', .otherwise inner' :: first', part₁, F₁, s', rfl,
        List.cons_ne_nil _ _, ?_, ?_, hpart₁, haccepts, h'⟩
      · exact (branches_else_eq_ok hkind).mpr ⟨inner', s₁, first', hread, hbranches, rfl⟩
      · simp only [Node.bodyUnplaced, Node.unplaced, hsame, hsame']
    case endIf =>
      obtain rfl : .list = next := by obtain rfl | rfl := hpart <;> cases hafter <;> rfl
      cases hinner
      rw [nodeWords, List.cons_append] at hs
      refine ⟨[.endIf], rest, [.endIf], .list, F, s.next, rfl, List.cons_ne_nil _ _, ?_, rfl,
        .inl rfl, hrest, hs.next⟩
      have hfurther : s.current.kind ≠ .elifWord ∧ s.current.kind ≠ .elseWord := by
        rw [hkind]
        decide
      exact (branches_end_eq_ok hfurther.1 hfurther.2).mpr ⟨hkind, rfl, rfl⟩
    all_goals obtain rfl | rfl := hpart <;> cases hafter

theorem reads_ifStatement {c : Condition} {inner rest : List Node} (hbody : BodyReads d body n)
    (hpart : part.isFinal = true) (hfinal : part'.isFinal = true)
    (h : Accepts d.vocabulary ctx part F (.ifThen c inner :: rest) part' F')
    (hs : s.At d F (bodyWords d (.ifThen c inner :: rest) ++ xs))
    (hlength : (bodyWords d (.ifThen c inner :: rest) ++ xs).length ≤ n) :
    ReadsFirst d ctx (ifStatement body ctx) s (.ifThen c inner :: rest) part' F' xs := by
  cases h with
  | @cons _ _ next inside _ _ G _ _ _ hafter hnode hinner hinside hrest =>
  obtain rfl := Part.eq_of_after? hpart rfl hafter
  have hinner : Accepts d.vocabulary ctx.inner .list F inner inside G := hinner
  rw [bodyWords, nodeWords, List.append_assoc, List.cons_append, List.append_assoc] at hs hlength
  simp only [List.length_cons, List.length_append] at hlength
  obtain ⟨s₁, hcondition, h₁⟩ := reads_condition hs.next hnode
  obtain ⟨inner', s₂, hread, hsame, h₂⟩ := hbody.closed (.unexpectedEof "'end'") hinner hinside
    hrest rfl hfinal h₁ (by simp only [List.length_append]; omega)
  have hfirst : ReadsFirst d ctx (branches body ctx (s₂.pending.length + 1)) s₂ rest part' F' xs :=
    reads_branches hbody hrest (.inl rfl) hfinal h₂ (by rw [List.length_append]; omega)
      (by rw [h₂.length_pending]; omega)
  obtain ⟨first, rest', first', part₁, F₁, s', rfl, -, hbranches, hsame', hpart₁, haccepts, h'⟩ :=
    hfirst
  refine ⟨.ifThen c inner :: first, rest', .ifThen c inner' :: first', part₁, F₁, s', rfl,
    List.cons_ne_nil _ _, ?_, ?_, hpart₁, haccepts, h'⟩
  · exact ifStatement_eq_ok.mpr ⟨c, s₁, inner', s₂, first', hcondition, hread, hbranches, rfl⟩
  · simp only [Node.bodyUnplaced, Node.unplaced, hsame, hsame']

/-! ## Loops and functions -/

/-- The rest of the list is the body of `run`. What is left of the list around
it is therefore nothing. -/
theorem reads_runStatement {kind : TokenKind} {count : String} {inner rest : List Node}
    (hbody : BodyReads d body n) (hpart : part.isFinal = true)
    (h : Accepts d.vocabulary ctx part F (.run count inner :: rest) part' F')
    (hxs : Breaks d kind xs) (hstop : kind = .eof ∨ kind.isTerminator = true)
    (hs : s.At d F (bodyWords d (.run count inner :: rest) ++ xs))
    (hlength : (bodyWords d (.run count inner :: rest) ++ xs).length ≤ n) :
    ReadsFirst d ctx (runStatement body ctx) s (.run count inner :: rest) part' F' xs := by
  cases h with
  | @cons _ _ next inside _ _ G _ _ _ hafter hnode hinner hinside hrest =>
  obtain rfl := Part.eq_of_after? hpart rfl hafter
  have hinner : Accepts d.vocabulary ctx.inner .list F inner inside G := hinner
  cases hrest with
  | cons hafter => cases hafter
  | nil =>
    rw [bodyWords, bodyWords, List.append_nil, nodeWords, List.cons_append, List.cons_append]
      at hs hlength
    simp only [List.length_cons] at hlength
    obtain ⟨inner', s', hread, hsame, h'⟩ := hbody (e := .run) hinner hinside hstop hxs hs.next.next
      (by omega)
    refine ⟨[.run count inner], [], [.run count inner'], .last, G, s', rfl, List.cons_ne_nil _ _,
      ?_, ?_, .inr rfl, .nil, h'⟩
    · exact runStatement_eq_ok.mpr ⟨hs.next.known hnode, inner', hread, by rw [hs.next.lexeme]⟩
    · simp only [Node.bodyUnplaced, Node.unplaced, hsame]

theorem reads_loopStatement {counter start stop : String} {inner rest : List Node}
    (hbody : BodyReads d body n) (hpart : part.isFinal = true) (hfinal : part'.isFinal = true)
    (h : Accepts d.vocabulary ctx part F (.loop counter start stop inner :: rest) part' F')
    (hs : s.At d F (bodyWords d (.loop counter start stop inner :: rest) ++ xs))
    (hlength : (bodyWords d (.loop counter start stop inner :: rest) ++ xs).length ≤ n) :
    ReadsFirst d ctx (loopStatement body ctx) s (.loop counter start stop inner :: rest) part' F'
      xs := by
  cases h with
  | @cons _ _ next inside _ _ G _ _ _ hafter hnode hinner hinside hrest =>
  obtain rfl := Part.eq_of_after? hpart rfl hafter
  obtain ⟨hcounter, hnew, hstart, hstop⟩ := hnode
  rw [bodyWords, nodeWords, List.append_assoc] at hs hlength
  simp only [List.cons_append, List.length_cons] at hs hlength
  have hinner : Accepts d.vocabulary ctx.inner .list
      { F with scope := F.scope.inBlock [(counter, .i32)] } inner inside G := hinner
  have h₂ := hs.next.next
  have hbounds : bounds s.next.next = .ok (start, stop) s.next.next.next.next.next :=
    bounds_eq_ok.mpr ⟨h₂.known hstart, .inl ⟨h₂.next.kind (.shared (by decide)),
      h₂.next.next.known hstop, h₂.lexeme.symm, h₂.next.next.lexeme.symm, rfl⟩⟩
  have h₅ := h₂.next.next.next
  have hname := hs.next.lexeme
  -- Inside the loop its counter is bound.
  have hbound : ({ s.next.next.next.next.next with
      scope := s.next.next.next.next.next.scope.inBlock [(s.next.current.lexeme, .i32)] } :
      ReadState).At d { F with scope := F.scope.inBlock [(counter, .i32)] }
        (bodyWords d inner ++ (bodyWords d rest ++ xs)) := by
    rw [hname]
    exact h₅.mapScope (·.inBlock [(counter, .i32)])
  obtain ⟨inner', s', hread, hsame, h'⟩ := hbody.closed (.unexpectedEof "'roll'") hinner hinside
    hrest rfl hfinal hbound (by omega)
  -- After the body stands the word that closes it.
  cases hrest with
  | nil => cases hfinal
  | @cons _ _ next' inside' _ _ G' _ node rest hafter' hnode' hinner' hinside' hrest' =>
  cases node <;> first | cases hafter'; done | skip
  cases hinner'
  obtain rfl := Option.some.inj hafter'
  rw [bodyWords, nodeWords, List.append_assoc] at h'
  refine ⟨[.loop counter start stop inner, .endLoop], rest,
    [.loop counter start stop inner', .endLoop], .list, _, _, rfl, List.cons_ne_nil _ _,
    loopStatement_eq_ok.mpr ⟨hs.next.kind hcounter, start, stop, _, inner', s', hbounds, ?_, hread,
      ?_, rfl⟩, ?_, .inl rfl, hrest', (h'.mapScope Scope.closeBlock).next⟩
  · rw [h₅.scope, hname]; exact hnew
  · rw [hname]
  · simp only [Node.bodyUnplaced, Node.unplaced, hsame]

/-- The parameters of a function are read back, with their names as tokens. -/
theorem reads_parameters {scope : Scope} {parameters : List (String × ValueType)}
    (function : Token) (hparameters : Node.ParametersChecked d.vocabulary scope parameters)
    (h : s.At d F (listWords d (parameterWords d) parameters ++ d.text .colon :: xs)) :
    ∃ read s', listUntil .colon "',' or ':'" (parameter function) s = .ok read s' ∧
      read.map (fun p => (p.1.lexeme, p.2)) = parameters ∧ s'.At d F xs := by
  obtain ⟨hwords, hnodup⟩ := hparameters
  refine reads_listUntil (parameterWords d) (fun p : Token × ValueType => (p.1.lexeme, p.2))
    (by decide) nofun ?_ ?_ h
  · intro p hp
    exact ⟨_, _, .type p.2, rfl, .ofHas (hwords p hp).2.1 rfl, nofun⟩
  · intro before p after s₁ ys hall h₁
    obtain ⟨hword, htype, hstorable, -⟩ := hwords p (by rw [← hall]; simp)
    -- The name is none of those before it, because all names are different.
    have hnew : p.1 ∉ before.map (·.1.lexeme) := by
      rw [← hall, List.map_append, List.map_map, List.map_cons, List.nodup_append] at hnodup
      intro hmem
      exact hnodup.2.2 p.1 hmem p.1 List.mem_cons_self rfl
    have hname := h₁.next.lexeme
    refine ⟨(s₁.next.current, p.2), s₁.next.next, parameter_eq_ok.mpr ⟨?_, hstorable, ?_, ?_, rfl,
      rfl⟩, by rw [hname], h₁.next.next⟩
    · exact h₁.kind (.ofHas htype rfl)
    · exact h₁.next.kind hword
    · rw [hname]; exact hnew

theorem reads_functionStatement {signature : Signature} {inner rest : List Node}
    (hbody : BodyReads d body n) (hpart : part.isFinal = true)
    (h : Accepts d.vocabulary ctx part F (.function signature inner :: rest) part' F')
    (hs : s.At d F (bodyWords d (.function signature inner :: rest) ++ xs))
    (hlength : (bodyWords d (.function signature inner :: rest) ++ xs).length ≤ n) :
    ReadsFirst d ctx (functionStatement body ctx) s (.function signature inner :: rest) part' F'
      xs := by
  cases h with
  | @cons _ _ next inside _ _ G _ _ _ hafter hnode hinner hinside hrest =>
  obtain rfl := Part.eq_of_after? hpart rfl hafter
  obtain ⟨htop, htype, hname, hnew, hparameters⟩ := hnode
  rw [bodyWords, nodeWords, signatureWords] at hs hlength
  simp only [List.cons_append, List.append_assoc, List.nil_append, List.length_cons,
    List.length_append] at hs hlength
  have hlexeme := hs.next.next.lexeme
  obtain ⟨read, s₁, hlist, hview, h₁⟩ :=
    reads_parameters s.next.next.current hparameters hs.next.next.next.next
  have hinner : Accepts d.vocabulary { ctx.inner with function? := some signature } .list
      { F with scope := (F.scope.declared signature.symbol).inBlock signature.parameters.reverse }
      inner inside G := hinner
  obtain ⟨inner', s₂, hread, hsame, h₂⟩ := hbody
    (e := .closedBy [.endWord] (.malformedFunctionBody signature.name)) hinner hinside
    ⟨List.mem_singleton.mpr rfl, by simp [TokenKind.isTerminator]⟩
    (breaks_terminator (.shared (by decide)) rfl _)
    (h₁.mapScope fun scope =>
      (scope.declared signature.symbol).inBlock signature.parameters.reverse)
    (by simp only [List.length_append, List.length_cons]; omega)
  refine ⟨[.function signature inner], rest, [.function signature inner'], .list, _, _, rfl,
    List.cons_ne_nil _ _, functionStatement_eq_ok.mpr ⟨htop, signature, read, s₁, inner', s₂,
      hs.next.kind (.ofHas htype rfl), hs.next.next.kind hname, hlexeme,
      hs.next.next.next.kind (.shared (by decide)), hlist, hview, ?_, ?_, ?_, hread, rfl, rfl⟩, ?_,
    .inl rfl, hrest, (h₂.mapScope Scope.closeBlock).next⟩
  · rw [h₁.scope]; exact hnew
  · intro p hp
    rw [h₁.scope]
    exact (hparameters.1 (p.1.lexeme, p.2) (hview ▸ List.mem_map.mpr ⟨p, hp, rfl⟩)).2.2.2
  · have hnodup := hparameters.2
    rw [← hview, List.map_map] at hnodup
    exact hnodup
  · simp only [Node.bodyUnplaced, Node.unplaced, hsame]

/-! ## Statements and lists of statements -/

/-- A statement without a body is read back as the first one of a list. What
follows it breaks it off, so it ends where it was written to end. -/
theorem ReadsBack.first {x : Read Node} {node : Node} {rest : List Node}
    (hx : ReadsBack d ctx x node) (hnext : Part.afterStatement? node = some .list)
    (hempty : node.body = []) (hleave : ∀ G : Facts, G.leave node = G)
    (hpart : part.isFinal = true) (h : Accepts d.vocabulary ctx part F (node :: rest) part' F')
    (hxs : ∃ kind, Breaks d kind xs) (hs : s.At d F (bodyWords d (node :: rest) ++ xs)) :
    ReadsFirst d ctx (x >>= fun node => pure [node]) s (node :: rest) part' F' xs := by
  cases h with
  | @cons _ _ next inside _ _ G _ _ _ hafter hnode hinner hinside hrest =>
  obtain rfl := Part.eq_of_after? hpart hnext hafter
  rw [hempty] at hinner
  cases hinner
  rw [hleave] at hrest
  rw [bodyWords, List.append_assoc] at hs
  obtain ⟨node', s', hread, hsame, h'⟩ := hx hs (breaks_bodyWords hrest hxs) hnode
  refine ⟨[node], rest, [node'], .list, F.enter node, s', rfl, List.cons_ne_nil _ _,
    single_eq_ok.mpr ⟨node', hread, rfl⟩, ?_, .inl rfl, hrest, h'⟩
  simp only [Node.bodyUnplaced, hsame]

theorem ReadsFirst.congr {x y : Read (List Node)} {nodes : List Node} (h : x s = y s)
    (hy : ReadsFirst d ctx y s nodes part' F' xs) : ReadsFirst d ctx x s nodes part' F' xs := by
  obtain ⟨first, rest, first', part, F, s', hnodes, hne, hread, hrest⟩ := hy
  exact ⟨first, rest, first', part, F, s', hnodes, hne, h.trans hread, hrest⟩

/-- **The first statement of an acceptable list is read back.** By cases on
its node: one without a body has its lemma, and the others are put together
from their bodies. -/
theorem reads_statement {kind : TokenKind} {node : Node} {rest : List Node}
    (hbody : BodyReads d body n) (hpart : part.isFinal = true) (hfinal : part'.isFinal = true)
    (hstart : part = .start → s.taken = 0)
    (h : Accepts d.vocabulary ctx part F (node :: rest) part' F') (hxs : Breaks d kind xs)
    (hstop : kind = .eof ∨ kind.isTerminator = true)
    (hs : s.At d F (bodyWords d (node :: rest) ++ xs))
    (hlength : (bodyWords d (node :: rest) ++ xs).length ≤ n) :
    ReadsFirst d ctx (statement body ctx) s (node :: rest) part' F' xs := by
  have hfirst : s.current.kind = firstKind node ∧
      (firstKind node ≠ .identifier → s.startsCall = false) := by
    cases h with
    | cons hafter hnode hinner hinside hrest =>
    rw [bodyWords, List.append_assoc] at hs
    have hkind := (hs.breaks (breaks_nodeWords hnode _)).1
    refine ⟨hkind, fun hne => ?_⟩
    rw [Bool.eq_false_iff, Ne, ReadState.startsCall_iff hs.tokens.final, hkind]
    exact fun hcall => hne hcall.1
  obtain ⟨hkind, hno⟩ := hfirst
  have hbreaks : ∃ kind, Breaks d kind xs := ⟨kind, hxs⟩
  cases node
  case call c =>
    have hcall : s.startsCall = true := by
      cases h with
      | cons hafter hnode hinner hinside hrest => exact hs.startsCall hnode.1.1
    refine .congr ?_ (ReadsBack.first (reads_callStatement c) rfl rfl (fun _ => rfl) hpart h hbreaks
      hs)
    unfold statement
    rw [bind_of_ok (seesCall_apply s), if_pos hcall]
  all_goals
    refine ReadsFirst.congr
      (by
        unfold statement
        rw [bind_of_ok (seesCall_apply s), hno (by rintro ⟨⟩), if_neg Bool.false_ne_true,
          bind_of_ok (peek_apply s), hkind]) ?_
  case run => exact reads_runStatement hbody hpart h hxs hstop hs hlength
  case ifThen => exact reads_ifStatement hbody hpart hfinal h hs hlength
  case loop => exact reads_loopStatement hbody hpart hfinal h hs hlength
  case function => exact reads_functionStatement hbody hpart h hs hlength
  case declare v =>
    exact ReadsBack.first (reads_declaration v) rfl rfl (fun _ => rfl) hpart h hbreaks hs
  case assign a =>
    exact ReadsBack.first (reads_assignment a) rfl rfl (fun _ => rfl) hpart h hbreaks hs
  case output name i? =>
    exact ReadsBack.first (reads_output name i?) rfl rfl (fun _ => rfl) hpart h hbreaks hs
  case save name =>
    exact ReadsBack.first (reads_save name) rfl rfl (fun _ => rfl) hpart h hbreaks hs
  case restore name =>
    exact ReadsBack.first (reads_restore name) rfl rfl (fun _ => rfl) hpart h hbreaks hs
  case giveBack value? =>
    exact ReadsBack.first (reads_giveBack value?) rfl rfl (fun _ => rfl) hpart h hbreaks hs
  case calculate c =>
    exact ReadsBack.first (reads_calculation c) rfl rfl (fun _ => rfl) hpart h hbreaks hs
  case useLibrary name span =>
    exact ReadsBack.first (reads_libraryImport name span) rfl rfl (fun _ => rfl) hpart h hbreaks hs
  case qualifiedCall library c =>
    exact ReadsBack.first (reads_qualifiedCall library c) rfl rfl (fun _ => rfl) hpart h hbreaks hs
  case openNamespace name =>
    cases h with
    | @cons _ _ next inside _ _ G _ _ _ hafter hnode hinner hinside hrest =>
    obtain rfl : part = .start := by
      cases part <;> first | rfl | cases hafter
    obtain rfl := Option.some.inj hafter
    cases hinner
    rw [bodyWords, List.append_assoc] at hs
    obtain ⟨s', hread, h'⟩ := reads_namespaceInit name hs (hstart rfl) hnode
    exact ⟨[.openNamespace name], rest, [.openNamespace name], .list, _, s', rfl,
      List.cons_ne_nil _ _, single_eq_ok.mpr ⟨_, hread, rfl⟩, rfl, .inl rfl, hrest, h'⟩
  all_goals
    cases h with
    | cons hafter => cases part <;> first | cases hpart; done | cases hafter

/-- **Lists of statements are read back**, by induction on the budget, which
is more than the words that are left. The judgement gives what each statement
needs to be read. -/
theorem reads_statements (budget : Nat) {ctx : Context} {e : Enclosure} {F F' : Facts}
    {part part' : Part} {nodes : List Node} {kind : TokenKind} {s : ReadState} {xs : List String}
    (hpart : part.isFinal = true) (hfinal : part'.isFinal = true)
    (hstart : part = .start → s.taken = 0)
    (h : Accepts d.vocabulary ctx part F nodes part' F') (hfits : e.Fits nodes kind)
    (hxs : Breaks d kind xs) (hs : s.At d F (bodyWords d nodes ++ xs))
    (hlength : (bodyWords d nodes ++ xs).length < budget) :
    ∃ nodes' s', statements budget ctx e s = .ok nodes' s' ∧
      Node.bodyUnplaced nodes' = Node.bodyUnplaced nodes ∧ s'.At d F' xs := by
  induction budget generalizing ctx e F F' part part' nodes kind s xs with
  | zero => omega
  | succ budget ih =>
    cases nodes with
    | nil =>
      cases h
      have hends : e.verdict ctx.dialect s.current = .ends := hfits.ends (hs.breaks hxs).1
      exact ⟨[], s, statements_eq_ok.mpr (.inl ⟨hends, rfl, rfl⟩), rfl, hs⟩
    | cons node rest =>
      have hbody : BodyReads d (statements budget) budget := by
        intro ctx e F F' part' nodes kind s xs h hfinal hfits hxs hs hlength
        have hstart : Part.list = .start → s.taken = 0 := by rintro ⟨⟩
        exact ih (show Part.list.isFinal = true from rfl) hfinal hstart h hfits hxs hs hlength
      have hgoes : e.verdict ctx.dialect s.current = .goesOn := by
        cases h with
        | cons hafter hnode =>
          rw [bodyWords, List.append_assoc] at hs
          exact hfits.goesOn hpart hafter (hs.breaks (breaks_nodeWords hnode _)).1
      obtain ⟨first, rest', first', part₁, F₁, s₁, hnodes, hne, hread, hsame, hpart₁, haccepts,
        h₁⟩ :=
        reads_statement hbody hpart hfinal hstart h hxs hfits.stops hs (by omega)
      have hshorter : (bodyWords d rest' ++ xs).length < budget := by
        have hpos := @length_bodyWords_pos d first hne
        rw [hnodes, bodyWords_append, List.append_assoc, List.length_append] at hlength
        omega
      have hfinal₁ : part₁.isFinal = true ∧ (part₁ = .start → s₁.taken = 0) := by
        obtain rfl | rfl := hpart₁ <;> exact ⟨rfl, by rintro ⟨⟩⟩
      rw [hnodes] at hfits
      obtain ⟨rest'', s', hread', hsame', h'⟩ :=
        ih hfinal₁.1 hfinal hfinal₁.2 haccepts hfits.append hxs h₁ hshorter
      refine ⟨first' ++ rest'', s', ?_, ?_, h'⟩
      · exact statements_eq_ok.mpr (.inr ⟨hgoes, first', s₁, rest'', hread, hread', rfl⟩)
      · rw [hnodes, Node.bodyUnplaced_append, Node.bodyUnplaced_append, hsame, hsame']

end Read

/-! ## Units -/

/-- The state before the tokens of some words: the words are what is left, and
nothing is known. -/
theorem ReadState.at_ofTokens {d : Dialect} {tokens : List Token} {xs : List String} {q : Position}
    (hlexemes : tokens.map Token.lexeme = xs) (hkinds : ∀ t ∈ tokens, Lexeme d t.kind t.lexeme) :
    (ofTokens (tokens ++ [.eof q])).At d .initial xs := by
  have hpending : (ofTokens (tokens ++ [.eof q])).pending = tokens := by
    show (tokens ++ [Token.eof q]).takeWhile (·.kind != .eof) = tokens
    rw [List.takeWhile_append_of_pos]
    · exact List.append_nil tokens
    · intro t ht
      simpa using (hkinds t ht).kind_ne_eof
  refine ⟨over_ofTokens ?_, rfl, by rw [hpending, hlexemes]⟩
  intro t ht hne
  obtain ht | ht := List.mem_append.mp ht
  · exact hkinds t ht
  · rw [List.mem_singleton.mp ht] at hne
    exact absurd rfl hne

namespace Program

variable {d : Dialect} {library : Bool} {p : Program}

/-- **The source text of an acceptable program is read back**, up to the
places of its imports. The words of the text are lexemes, so they are the
tokens of it. -/
theorem ofText_source_of_accepted {warnings : List (String × String)}
    (h : p.Accepted d.vocabulary d library warnings) :
    ∃ p' warnings', ofText d library (p.source d) = .ok (p', warnings') ∧
      p'.unplaced = p.unplaced ∧ warnings'.map Warning.unplaced = warnings := by
  obtain ⟨hlibrary, part, F, hfinal, rfl, haccepts⟩ := h
  obtain ⟨tokens, q, hscan, hlexemes, hkinds⟩ :=
    Token.spells_intercalate (written_bodyWords haccepts) .start
  have hstart : (ReadState.ofTokens (tokens ++ [.eof q])).At d .initial
      (bodyWords d p.nodes ++ []) := by
    rw [List.append_nil]
    exact ReadState.at_ofTokens hlexemes hkinds
  have hbreaks : Breaks d .eof [] := rfl
  have hunit : ∃ nodes s, Read.statements
      ((ReadState.ofTokens (tokens ++ [.eof q])).pending.length + 1) ⟨d, 0, none⟩ (.unit library)
      (ReadState.ofTokens (tokens ++ [.eof q])) = .ok nodes s ∧
      Node.bodyUnplaced nodes = Node.bodyUnplaced p.nodes ∧ s.At d F [] := by
    refine Read.reads_statements _ ?_ hfinal (fun _ => rfl) haccepts ⟨rfl, hlibrary⟩ hbreaks
      hstart ?_
    · rfl
    · rw [hstart.length_pending]
      omega
  obtain ⟨nodes, s, hread, hsame, hs⟩ := hunit
  refine ⟨⟨nodes⟩, s.warnings, ?_, congrArg Program.mk hsame, congrArg Facts.warnings hs.facts⟩
  have htokens : Token.scan d (p.source d) = .ok (tokens ++ [.eof q]) := hscan
  have hunit : ofTokens d library (tokens ++ [.eof q]) = .ok (⟨nodes⟩, s.warnings) := by
    unfold ofTokens
    dsimp only
    rw [hread]
  rw [ofText, htokens]
  exact hunit

/-- **Writing a program down and reading it again gives it back.** Whatever
text a program was read from, its source text in the same dialect is read too.
It gives the same program, up to the places of imports, and the same warnings,
up to their places. -/
theorem ofText_source {text : String} {warnings : List Warning}
    (h : ofText d library text = .ok (p, warnings)) :
    ∃ p' warnings', ofText d library (p.source d) = .ok (p', warnings') ∧
      p'.unplaced = p.unplaced ∧
      warnings'.map Warning.unplaced = warnings.map Warning.unplaced :=
  ofText_source_of_accepted (accepted_of_ofText h)

/-- A program with an import, a comment, a loop from zero and a warning. The
comment is gone from the text that is printed, and the zero is written out. -/
theorem ofText_source_loop :
    ∃ p warnings, ofText .maple false
        "lib @a\ndec ch i32 x 1 // one\nloop i 3\nload x\nroll" = .ok (p, warnings) ∧
      p.source .maple = "lib @a dec ch i32 x 1 loop i 0 .. 3 load x roll" ∧
      ∃ p' warnings', ofText .maple false (p.source .maple) = .ok (p', warnings') ∧
        p'.unplaced = p.unplaced ∧
        warnings'.map Warning.unplaced = warnings.map Warning.unplaced := by
  have hread : ofText .maple false "lib @a\ndec ch i32 x 1 // one\nloop i 3\nload x\nroll" =
      .ok (⟨[.useLibrary "a" ⟨4, 2, 1, 5⟩, .declare ⟨.i32, "x", .value "1", false⟩,
          .loop "i" "0" "3" [.restore "x"], .endLoop]⟩,
        [.restoreWithoutBackup "x" ⟨43, 1, 4, 6⟩]) := by decide +kernel
  exact ⟨_, _, hread, by decide +kernel, ofText_source hread⟩

end Program

end MapleCompiler
