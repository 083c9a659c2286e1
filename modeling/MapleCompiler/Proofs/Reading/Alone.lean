import MapleCompiler.Proofs.Reading.Walk

/-!
# A reading on its own

What a single reading does is the case of two readings in which the second one is of the
same tokens, from the same state (`Tandem.alone`). The tokens are then their own
counterparts, and the errors of the two readings are the same. A reader that stays together
with another one, in the sense of the module on readers in tandem, therefore

* makes the changes that its result tells of, and loses nothing (`Tandem.Tells.grows`),
* fails at a token that was left when it began (`Tandem.Tells.blames`), and
* does the same as the other one (`Tandem.Tells.run_eq`).

The last of these is of use where the two differ, as loops with different budgets do. For
the second, the two readings have to know what is asked of a token for an error to be
blamed on it (`Blame`).
-/

namespace MapleCompiler

/-- **What is to be known of errors**, if something is known of the tokens
they are at. -/
structure Blame where
  /-- Tokens that may be blamed. -/
  token : Token → Prop
  /-- Errors that may be found. -/
  error : CompileError → Prop
  error_atToken {t : Token} {fault : Fault} : token t → fault.isImport = false →
    error (.atToken fault t)

/-- Any error may be found, at any token. -/
def Blame.any : Blame := ⟨fun _ => True, fun _ => True, fun _ _ => trivial⟩

/-- What is expected at a token is a fault of that token, at the end mark and
elsewhere. -/
theorem Blame.error_unexpected (blame : Blame) {t : Token} (ht : blame.token t)
    (expected : String) : blame.error (.unexpected expected t) := by
  refine blame.error_atToken ht ?_
  split <;> rfl

/-- **Tokens beside themselves.** Nothing is replaced, and the two readings
fail alike. -/
def Pairing.itself (d : Dialect) (blame : Blame) : Pairing where
  dialect := d
  dialect' := d
  rename := id
  place := id
  token t t' := t' = t ∧ blame.token t
  text x x' := x' = x
  error e e' := e' = e ∧ blame.error e
  warning w w' := w' = w
  rename_injective := Function.injective_id
  rename_zero := rfl
  kind_eq h := congrArg Token.kind h.1
  lexeme_eq h _ := congrArg Token.lexeme h.1
  classify_eq h _ := congrArg (Literal.classify ·.lexeme) h.1
  fixed_eq h _ := congrArg Token.lexeme h.1
  place_eq h _ := congrArg Token.span h.1.symm
  text_rename _ := rfl
  text_lexeme h := congrArg Token.lexeme h.1
  error_at fault hfault ht hx hy := by
    obtain ⟨rfl, ht⟩ := ht
    rw [hx, hy]
    exact ⟨rfl, blame.error_atToken ht (hfault.isOwn _ _)⟩
  error_branch ht _ := by
    obtain ⟨rfl, ht⟩ := ht
    exact ⟨rfl, blame.error_unexpected ht _⟩
  warning_restore ht _ := by rw [ht.1]

theorem Scope.rename_id (s : Scope) : s.rename id = s := by
  have hsymbol : Symbol.rename id = id := rfl
  unfold rename
  simp [hsymbol]

/-! ## One reading -/

namespace Tandem

/-- **A reading from a state, twice**, in which some tokens may be blamed. -/
def itself (d : Dialect) (blame : Blame) (s : ReadState) : Tandem :=
  { Pairing.itself d blame with
    near := fun _ => True
    length := s.taken + s.pending.length
    length' := s.taken + s.pending.length
    near_of_le := fun _ h => h }

/-- A reading from a state, twice, with nothing to be known of errors. -/
abbrev alone (d : Dialect) (s : ReadState) : Tandem := itself d .any s

variable {d : Dialect} {blame : Blame} {s s₀ s₁ s₂ : ReadState}

/-- A state goes with itself in the two readings, if all of its tokens may be
blamed. This is where a statement about two readings is entered for a single
one. -/
theorem states_itself (hs : s.Proper) (hblame : ∀ t ∈ s.pending ++ [s.final], blame.token t) :
    (itself d blame s).States s s := by
  have halike (pending : List Token) (hsubset : pending ⊆ s.pending) (i : Nat) :
      (itself d blame s).Alike i pending s.final pending s.final := by
    induction pending generalizing i with
    | nil => exact .nil ⟨rfl, hblame _ (by simp)⟩
    | cons t rest ih =>
      obtain ⟨ht, hrest⟩ := List.cons_subset.mp hsubset
      exact .cons ⟨rfl, hblame t (List.mem_append_left _ ht)⟩ (ih hrest _)
  refine ⟨⟨hs, rfl, fun t ht => ⟨t, rfl, hblame t ht⟩⟩, hs, rfl,
    halike _ (List.Subset.refl _) _, rfl, ?_, rfl, ?_⟩
  · exact s.scope.rename_id.symm
  · exact List.forall₂_same.mpr fun _ _ => rfl

theorem states_alone (hs : s.Proper) : (alone d s).States s s :=
  states_itself hs fun _ _ => trivial

theorem first_alone (hs : s.Proper) : (alone d s).First s := (states_alone hs).first

/-- States that both readings reach are the same: nothing is replaced, and the
readings are never far. -/
theorem States.eq (h : (itself d blame s₀).States s₁ s₂) : s₂ = s₁ := by
  have htokens (i : Nat) {pending pending' : List Token} {final final' : Token}
      (h : (itself d blame s₀).Alike i pending final pending' final') :
      pending' = pending ∧ final' = final := by
    induction h with
    | cons ht _ ih => exact ⟨congrArg₂ List.cons ht.1 ih.1, ih.2⟩
    | nil ht => exact ⟨rfl, ht.1⟩
    | far hfar _ => exact absurd trivial hfar
  obtain ⟨hpending, hfinal⟩ := htokens _ h.tokens
  have hscope : s₂.scope = s₁.scope := h.scope.trans s₁.scope.rename_id
  have hwarnings : s₂.warnings = s₁.warnings := by
    have hwarnings : List.Forall₂ (fun w w' => w' = w) s₁.warnings s₂.warnings := h.warnings
    rw [eq_map_of_forall₂ (f := id) hwarnings, List.map_id]
  obtain ⟨_, _, _, _, _, _⟩ := s₁
  obtain ⟨_, _, _, _, _, _⟩ := s₂
  exact ReadState.mk.injEq .. ▸ ⟨hpending, hfinal, h.taken, hscope, h.imports, hwarnings⟩

namespace Tells

variable {α β : Type} {K : TokenKind → Prop} {c c' : Nat} {V : List Event → α → β → Prop}
  {x : Read α} {y : Read β} {a : α} {e : CompileError}

section

variable {T : Tandem} (h : T.Tells K c c' V x y) (hs : T.First s) (hc : c ≤ s.taken)
  (hk : K s.current.kind)

include h hs hc hk

/-- What a success changes, and what is told of it. The second reader is only
needed to exist: it may be the same one. -/
theorem changes (hx : x s = .ok a s₁) :
    c' ≤ s₁.taken ∧ ∃ events b, s.Changes events s₁ ∧ V events a b := by
  obtain ⟨-, ⟨b, hc', events, hchanges, hV⟩, -⟩ := (h.on s hs hc hk).ok a s₁ hx
  exact ⟨hc', events, b, hchanges, hV⟩

/-- **A success loses nothing** that was known before. The events of its
changes are not asked for. -/
theorem grows (hx : x s = .ok a s₁) : s.Grows s₁ := by
  obtain ⟨-, events, b, hchanges, -⟩ := h.changes hs hc hk hx
  exact hchanges.grows

/-- A failure too has moved on as readers do, so its state is at a cursor. -/
theorem leads_of_error (hx : x s = .error e s₁) : s.Leads s₁ :=
  ((h.on s hs hc hk).error e s₁ hx).1

end

section

variable (hs : s.Proper) (hc : c ≤ s.taken) (hk : K s.current.kind)

include hs hc hk

/-- **A failure is blamed on a token** that was left when the reader began.
What that means is chosen by `Blame`: that the token is one of a text, say, or
that nothing is known. -/
theorem blames (h : (itself d blame s).Tells K c c' V x y)
    (hblame : ∀ t ∈ s.pending ++ [s.final], blame.token t) (hx : x s = .error e s₁) :
    blame.error e := by
  have hstates := states_itself (d := d) hs hblame
  obtain ⟨-, hboth⟩ := (h.on s hstates.first hc hk).error e s₁ hx
  obtain ⟨e', _, he, -⟩ := hboth s hstates trivial
  exact he.2

/-- **Both readers do the same**, if their results have to be the same. They
end in the same state, with the same result or the same error. -/
theorem run_eq {y : Read α} {V : List Event → α → α → Prop}
    (h : (alone d s).Tells K c c' V x y) (hV : ∀ events a b, V events a b → b = a) :
    y s = x s := by
  cases hx : x s with
  | ok a s₁ =>
    obtain ⟨-, -, hboth⟩ := (h.on s (first_alone hs) hc hk).ok a s₁ hx
    obtain ⟨b, s₁', ⟨-, events, -, hab⟩, hy, hs₁⟩ := hboth s (states_alone hs) trivial
    rw [hy, hV events a b hab, hs₁.eq]
  | error e s₁ =>
    obtain ⟨-, hboth⟩ := (h.on s (first_alone hs) hc hk).error e s₁ hx
    obtain ⟨e', s₁', he, hy, hs₁⟩ := hboth s (states_alone hs) trivial
    rw [hy, he.1, hs₁.eq]

end

end Tells

/-- Nodes that both readings give are the same, since neither names nor places
are changed. -/
theorem AllNodes.eq {events : List Event} {nodes nodes' : List Node}
    (h : (alone d s₀).AllNodes events nodes nodes') : nodes' = nodes := by
  have hnodes : Node.bodyPlaced id nodes' = Node.bodyPlaced id (Node.bodyRename id nodes) := h.2
  rwa [Node.bodyPlaced_id, Node.bodyPlaced_id, Node.bodyRename_id] at hnodes

theorem context_alone {ctx : Context} (hctx : ctx.dialect = d) :
    (alone d s₀).context ctx = ctx := by
  obtain ⟨dialect, depth, function?⟩ := ctx
  have hsignature : Signature.rename id = id := funext Signature.rename_id
  show Context.mk d depth (function?.map (Signature.rename id)) = _
  rw [hsignature, Option.map_id, id, ← hctx]

/-- Any surroundings go with themselves, whatever words close them: both
readings spell them in the same dialect. -/
theorem enclosures_alone (enclosure : Enclosure) : (alone d s₀).Enclosures enclosure enclosure := by
  cases enclosure with
  | unit library => exact .unit library
  | run => exact .run
  | closedBy closers onEof =>
    refine .closedBy closers ?_ ?_
    · rintro t _ ⟨rfl, -⟩
      exact ⟨rfl, trivial⟩
    · rintro t _ ⟨rfl, -⟩ -
      exact ⟨rfl, trivial⟩

end Tandem

end MapleCompiler
