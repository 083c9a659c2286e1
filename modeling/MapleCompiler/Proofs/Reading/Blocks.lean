import MapleCompiler.Proofs.Reading.Readers

/-!
# What the readers of statements with a body accept

As for the other readers there is one lemma for each, here in terms of the
reader of bodies that it is given. `Enclosure.verdict_eq_goesOn` and its
companions say where a list of statements goes on and where it ends.
-/

namespace MapleCompiler

/-! ## Where lists stop -/

namespace Enclosure

variable {d : Dialect} {t : Token}

/-- Whether a list may hold a statement that begins with a kind. -/
def Admits (kind : TokenKind) : Enclosure → Prop
  | unit library => library = true → kind.startsLibraryStatement = true
  | run => True
  | closedBy closers _ => kind ∉ closers

/-- **A list goes on** at a token that begins a statement it may hold. A word
that closes a block never does, whichever block it would close, and the top
level of a library holds only some statements. -/
theorem verdict_eq_goesOn (e : Enclosure) :
    e.verdict d t = .goesOn ↔
      t.kind ≠ .eof ∧ t.kind.isTerminator = false ∧ e.Admits t.kind := by
  cases e with
  | unit library =>
    simp only [verdict, Admits]
    cases library <;> grind
  | run =>
    simp only [verdict, Admits]
    grind
  | closedBy closers onEof =>
    simp only [verdict, Admits, List.contains_iff_mem]
    grind

/-- A unit ends at the end mark and nowhere else. -/
theorem verdict_unit_eq_ends {library : Bool} :
    (unit library).verdict d t = .ends ↔ t.kind = .eof := by
  simp only [verdict]
  grind

/-- The body of `run` ends at any word that closes a block, and with the text.
It has no word of its own, so the word is left to the list around it. -/
theorem verdict_run_eq_ends :
    run.verdict d t = .ends ↔ t.kind = .eof ∨ t.kind.isTerminator = true := by
  simp only [verdict]
  grind

/-- A body that a word closes ends at that word and nowhere else. -/
theorem verdict_closedBy_eq_ends {closers : List TokenKind} {onEof : Fault} :
    (closedBy closers onEof).verdict d t = .ends ↔ t.kind ∈ closers := by
  simp only [verdict, List.contains_iff_mem]
  grind

end Enclosure

namespace Read

variable {s s' : ReadState} {body : BodyReader} {ctx : Context}

/-! ## Conditionals -/

/-- The branches that begin with `elif`: a condition and a body, and then the
branches after it with one round less. -/
theorem branches_elif_eq_ok {budget : Nat} {nodes : List Node} (hk : s.current.kind = .elifWord) :
    branches body ctx (budget + 1) s = .ok nodes s' ↔
      ∃ c s₁ inner s₂ rest, condition s.next = .ok c s₁ ∧ branchBody body ctx s₁ = .ok inner s₂ ∧
        branches body ctx budget s₂ = .ok rest s' ∧ nodes = .elseIf c inner :: rest := by
  rw [branches, bind_of_ok (peek_apply s), hk]
  dsimp only
  rw [bind_of_ok (advance_apply s)]
  simp only [bind_eq_ok, pure_apply, EStateM.Result.ok.injEq]
  constructor
  · rintro ⟨c, s₁, hc, inner, s₂, hinner, rest, _, hrest, rfl, rfl⟩
    exact ⟨c, s₁, inner, s₂, rest, hc, hinner, hrest, rfl⟩
  · rintro ⟨c, s₁, inner, s₂, rest, hc, hinner, hrest, rfl⟩
    exact ⟨c, s₁, hc, inner, s₂, hinner, rest, _, hrest, rfl, rfl⟩

/-- The branches that begin with `else`: a body, and then the branches after
it. Its body ends at `end` only, so after it the condition ends, or it is
refused. -/
theorem branches_else_eq_ok {budget : Nat} {nodes : List Node} (hk : s.current.kind = .elseWord) :
    branches body ctx (budget + 1) s = .ok nodes s' ↔
      ∃ inner s₁ rest,
        body ctx.inner (.closedBy [.endWord] (.unexpectedEof "'end'")) s.next = .ok inner s₁ ∧
        branches body ctx budget s₁ = .ok rest s' ∧ nodes = .otherwise inner :: rest := by
  rw [branches, bind_of_ok (peek_apply s), hk]
  dsimp only
  rw [bind_of_ok (advance_apply s)]
  simp only [bind_eq_ok, pure_apply, EStateM.Result.ok.injEq]
  constructor
  · rintro ⟨inner, s₁, hinner, rest, _, hrest, rfl, rfl⟩
    exact ⟨inner, s₁, rest, hinner, hrest, rfl⟩
  · rintro ⟨inner, s₁, rest, hinner, hrest, rfl⟩
    exact ⟨inner, s₁, hinner, rest, _, hrest, rfl, rfl⟩

/-- Without a further branch the conditional has to end here. Its end is a
node of its own. -/
theorem branches_end_eq_ok {budget : Nat} {nodes : List Node} (hif : s.current.kind ≠ .elifWord)
    (helse : s.current.kind ≠ .elseWord) :
    branches body ctx (budget + 1) s = .ok nodes s' ↔
      s.current.kind = .endWord ∧ nodes = [.endIf] ∧ s' = s.next := by
  rw [branches, bind_of_ok (peek_apply s)]
  have hends : ((expect .endWord "'end'" >>= fun _ => pure [Node.endIf] : Read (List Node)) s =
      .ok nodes s') ↔ s.current.kind = .endWord ∧ nodes = [.endIf] ∧ s' = s.next := by
    simp only [bind_eq_ok, expect_eq_ok, pure_apply, EStateM.Result.ok.injEq]
    constructor
    · rintro ⟨_, _, ⟨hk, rfl, rfl⟩, rfl, rfl⟩
      exact ⟨hk, rfl, rfl⟩
    · rintro ⟨hk, rfl, rfl⟩
      exact ⟨_, _, ⟨hk, rfl, rfl⟩, rfl, rfl⟩
  cases hk : s.current.kind with
  | elifWord => exact absurd hk hif
  | elseWord => exact absurd hk helse
  | _ => rw [hk] at hends; exact hends

theorem ifStatement_eq_ok {nodes : List Node} :
    ifStatement body ctx s = .ok nodes s' ↔
      ∃ c s₁ inner s₂ rest, condition s.next = .ok c s₁ ∧ branchBody body ctx s₁ = .ok inner s₂ ∧
        branches body ctx (s₂.pending.length + 1) s₂ = .ok rest s' ∧
        nodes = .ifThen c inner :: rest := by
  unfold ifStatement
  rw [bind_of_ok (advance_apply s)]
  simp only [bind_eq_ok, get_apply, pure_apply, EStateM.Result.ok.injEq]
  constructor
  · rintro ⟨c, s₁, hc, inner, s₂, hinner, _, _, ⟨rfl, rfl⟩, rest, _, hrest, rfl, rfl⟩
    exact ⟨c, s₁, inner, s₂, rest, hc, hinner, hrest, rfl⟩
  · rintro ⟨c, s₁, inner, s₂, rest, hc, hinner, hrest, rfl⟩
    exact ⟨c, s₁, hc, inner, s₂, hinner, _, _, ⟨rfl, rfl⟩, rest, _, hrest, rfl, rfl⟩

/-! ## Loops and functions -/

theorem runStatement_eq_ok {nodes : List Node} :
    runStatement body ctx s = .ok nodes s' ↔
      SeesKnown s.next ∧ ∃ inner, body ctx.inner .run s.next.next = .ok inner s' ∧
        nodes = [.run s.next.current.lexeme inner] := by
  unfold runStatement
  rw [bind_of_ok (advance_apply s)]
  simp only [bind_eq_ok, knownOperand_eq_ok, pure_apply, EStateM.Result.ok.injEq]
  constructor
  · rintro ⟨_, _, ⟨hk, rfl, rfl⟩, inner, _, hinner, rfl, rfl⟩
    exact ⟨hk, inner, hinner, rfl⟩
  · rintro ⟨hk, inner, hinner, rfl⟩
    exact ⟨_, _, ⟨hk, rfl, rfl⟩, inner, _, hinner, rfl, rfl⟩

/-- A loop is read if its counter is a new name, its bounds are known and its
body is read inside a block with the counter. After it that block is closed,
and its word was taken. -/
theorem loopStatement_eq_ok {nodes : List Node} :
    loopStatement body ctx s = .ok nodes s' ↔
      s.next.current.kind = .identifier ∧ ∃ start stop s₁ inner s₂,
        bounds s.next.next = .ok (start, stop) s₁ ∧
        s₁.scope.isDefined s.next.current.lexeme = false ∧
        body ctx.inner (.closedBy [.roll] (.unexpectedEof "'roll'"))
          { s₁ with scope := s₁.scope.inBlock [(s.next.current.lexeme, .i32)] } = .ok inner s₂ ∧
        nodes = [.loop s.next.current.lexeme start stop inner, .endLoop] ∧
        s' = ({ s₂ with scope := s₂.scope.closeBlock } : ReadState).next := by
  unfold loopStatement identifier
  rw [bind_of_ok (advance_apply s)]
  simp only [bind_eq_ok, expect_eq_ok]
  have hfresh (s₁ : ReadState) (x : String) :
      (s₁.scope.inBlock []).isDefined x = s₁.scope.isDefined x := Scope.isDefined_inBlock _ _ _
  constructor
  · rintro ⟨_, _, ⟨hname, rfl, rfl⟩, ⟨start, stop⟩, s₁, hbounds, h⟩
    dsimp only at h
    simp only [modifyScope_apply, introduce_eq_ok, advance_apply, pure_apply,
      EStateM.Result.ok.injEq] at h
    obtain ⟨_, _, ⟨-, rfl⟩, _, _, ⟨scope, hbind, rfl⟩, inner, s₂, hinner, _, _, ⟨-, rfl⟩, _, _,
      ⟨-, rfl⟩, rfl, rfl⟩ := h
    obtain ⟨hnew, rfl⟩ := (Scope.bindName_inBlock _).mp hbind
    exact ⟨hname, start, stop, s₁, inner, s₂, hbounds, (hfresh s₁ _).symm.trans hnew, hinner,
      rfl, rfl⟩
  · rintro ⟨hname, start, stop, s₁, inner, s₂, hbounds, hnew, hinner, rfl, rfl⟩
    refine ⟨_, _, ⟨hname, rfl, rfl⟩, (start, stop), s₁, hbounds, ?_⟩
    dsimp only
    simp only [modifyScope_apply, introduce_eq_ok, advance_apply, pure_apply,
      EStateM.Result.ok.injEq]
    exact ⟨⟨⟩, _, ⟨trivial, rfl⟩, ⟨⟩, _,
      ⟨_, (Scope.bindName_inBlock _).mpr ⟨(hfresh s₁ _).trans hnew, rfl⟩, rfl⟩, inner, s₂, hinner,
      ⟨⟩, _, ⟨trivial, rfl⟩, _, _, ⟨rfl, rfl⟩, rfl, rfl⟩

/-- A function is read at the top level only. Its name is new, and so are its
parameters, beside the name and beside each other; the body is read inside a
block with them. -/
theorem functionStatement_eq_ok {nodes : List Node} :
    functionStatement body ctx s = .ok nodes s' ↔
      ctx.isTopLevel = true ∧ ∃ signature parameters s₁ inner s₂,
        s.next.current.kind = .type signature.returnType ∧
        s.next.next.current.kind = .identifier ∧
        s.next.next.current.lexeme = signature.name ∧
        s.next.next.next.current.kind = .colon ∧
        listUntil .colon "',' or ':'" (parameter s.next.next.current) s.next.next.next.next =
          .ok parameters s₁ ∧
        parameters.map (fun p => (p.1.lexeme, p.2)) = signature.parameters ∧
        s₁.scope.isDefined signature.name = false ∧
        (∀ p ∈ parameters,
          (s₁.scope.declared signature.symbol).isDefined p.1.lexeme = false) ∧
        (parameters.map (·.1.lexeme)).Nodup ∧
        body { ctx.inner with function? := some signature }
          (.closedBy [.endWord] (.malformedFunctionBody signature.name))
          { s₁ with
            scope := (s₁.scope.declared signature.symbol).inBlock signature.parameters.reverse } =
          .ok inner s₂ ∧
        nodes = [.function signature inner] ∧
        s' = ({ s₂ with scope := s₂.scope.closeBlock } : ReadState).next := by
  unfold functionStatement identifier
  rw [bind_of_ok (advance_apply s)]
  simp only [bind_eq_ok, returnType_eq_ok, expect_eq_ok]
  have hempty (scope : Scope) (x : String) : (scope.inBlock []).isDefined x = scope.isDefined x :=
    Scope.isDefined_inBlock _ _ _
  constructor
  · rintro ⟨type, _, ⟨htype, rfl⟩, _, _, ⟨hname, rfl, rfl⟩, h⟩
    cases htop : ctx.isTopLevel with
    | false => rw [htop] at h; cases h
    | true =>
      rw [if_pos htop] at h
      obtain ⟨_, _, hmark, h₁⟩ := bind_eq_ok.mp h
      obtain ⟨hcolon, rfl, rfl⟩ | ⟨-, rfl, rfl⟩ := accept_eq_ok.mp hmark
      · simp only [if_true, bind_eq_ok, introduce_eq_ok, modifyScope_apply,
          Scope.declare_eq_ok, advance_apply, pure_apply, EStateM.Result.ok.injEq] at h₁
        obtain ⟨parameters, s₁, hlist, _, _, ⟨_, ⟨hnew, rfl⟩, rfl⟩, _, _, ⟨-, rfl⟩, _, _, hbind,
          inner, s₂, hinner, _, _, ⟨-, rfl⟩, _, _, ⟨-, rfl⟩, rfl, rfl⟩ := h₁
        obtain ⟨hfresh, hnodup, rfl⟩ := (bindParameters_eq_ok rfl).mp hbind
        refine ⟨rfl, ⟨type, s.next.next.current.lexeme, parameters.map fun p => (p.1.lexeme, p.2)⟩,
          parameters, s₁, inner, s₂, htype, hname, rfl, hcolon, hlist, rfl, hnew, ?_, hnodup, ?_,
          rfl, rfl⟩
        · intro p hp
          have := hfresh p hp
          rw [hempty] at this
          simpa [Signature.symbol] using this
        · simpa [Signature.symbol] using hinner
      · cases h₁
  · rintro ⟨htop, ⟨type, name, params⟩, parameters, s₁, inner, s₂, htype, hname, rfl, hcolon, hlist,
      rfl, hnew, hfresh, hnodup, hinner, rfl, rfl⟩
    refine ⟨type, _, ⟨htype, rfl⟩, _, _, ⟨hname, rfl, rfl⟩, ?_⟩
    rw [if_pos htop, bind_of_ok (accept_eq_ok.mpr (.inl ⟨hcolon, rfl, rfl⟩)), if_pos rfl,
      bind_of_ok hlist]
    simp only [bind_eq_ok, introduce_eq_ok, modifyScope_apply, Scope.declare_eq_ok,
      advance_apply, pure_apply, EStateM.Result.ok.injEq]
    refine ⟨⟨⟩, _, ⟨_, ⟨hnew, rfl⟩, rfl⟩, ⟨⟩, _, ⟨trivial, rfl⟩, ⟨⟩, _,
      (bindParameters_eq_ok rfl).mpr ⟨?_, hnodup, rfl⟩, inner, s₂, ?_, ⟨⟩, _, ⟨trivial, rfl⟩, _, _,
      ⟨rfl, rfl⟩, rfl, rfl⟩
    · intro p hp
      rw [hempty]
      simpa [Signature.symbol] using hfresh p hp
    · simpa [Signature.symbol] using hinner

/-! ## Statements and lists of statements -/

theorem current_of_startsCall (h : s.startsCall = true) : s.current.kind = .identifier := by
  unfold ReadState.startsCall at h
  unfold ReadState.current
  split at h
  · next hp => rw [hp]; simpa using (Bool.and_eq_true_iff.mp h).1
  · cases h

theorem single_eq_ok {x : Read Node} {nodes : List Node} :
    (x >>= fun node => pure [node] : Read (List Node)) s = .ok nodes s' ↔
      ∃ node, x s = .ok node s' ∧ nodes = [node] := by
  simp only [bind_eq_ok, pure_apply, EStateM.Result.ok.injEq]
  constructor
  · rintro ⟨node, _, h, rfl, rfl⟩
    exact ⟨node, h, rfl⟩
  · rintro ⟨node, h, rfl⟩
    exact ⟨node, _, h, rfl, rfl⟩

/-- **A list** ends, or it goes on with a statement and a list. A verdict that
fails is no success, so these are the only two ways. -/
theorem statements_eq_ok {budget : Nat} {e : Enclosure} {nodes : List Node} :
    statements (budget + 1) ctx e s = .ok nodes s' ↔
      (e.verdict ctx.dialect s.current = .ends ∧ nodes = [] ∧ s' = s) ∨
      (e.verdict ctx.dialect s.current = .goesOn ∧ ∃ first s₁ rest,
        statement (statements budget) ctx s = .ok first s₁ ∧
        statements budget ctx e s₁ = .ok rest s' ∧ nodes = first ++ rest) := by
  rw [statements, bind_of_ok (peek_apply s)]
  cases e.verdict ctx.dialect s.current with
  | ends =>
    simp only [pure_apply, EStateM.Result.ok.injEq, true_and, reduceCtorEq, false_and, or_false]
    exact ⟨fun h => ⟨h.1.symm, h.2.symm⟩, fun h => ⟨h.1.symm, h.2.symm⟩⟩
  | fails error => simp
  | goesOn =>
    simp only [bind_eq_ok, pure_apply, EStateM.Result.ok.injEq, reduceCtorEq, false_and, true_and,
      false_or]
    constructor
    · rintro ⟨first, s₁, hfirst, rest, _, hrest, rfl, rfl⟩
      exact ⟨first, s₁, rest, hfirst, hrest, rfl⟩
    · rintro ⟨first, s₁, rest, hfirst, hrest, rfl⟩
      exact ⟨first, s₁, hfirst, rest, _, hrest, rfl, rfl⟩

end Read

end MapleCompiler
