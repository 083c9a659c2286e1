import MapleCompiler.Program.Block

/-!
# What the primitive readers do

Every reader is put together from a few primitive ones: looking at a token,
taking it, failing at it, asking a rule of the scope, changing the scope. Each
of them has here one equation that says what it does to a state, so that no
proof about a reader has to open a primitive again.

Readers are chained. `Read.bind_eq_ok` and `Read.bind_eq_error` take a chain
apart: it succeeds if both parts do, one after the other, and fails if the
first does or the second does after it.
-/

namespace MapleCompiler

namespace ReadState

/-- The state after the token that is looked at was taken; the end mark
stays. -/
def next (s : ReadState) : ReadState :=
  match s.pending with
  | [] => s
  | _ :: rest => { s with pending := rest, taken := s.taken + 1 }

@[simp] theorem next_final (s : ReadState) : s.next.final = s.final := by
  unfold next; split <;> rfl

@[simp] theorem next_scope (s : ReadState) : s.next.scope = s.scope := by
  unfold next; split <;> rfl

@[simp] theorem next_imports (s : ReadState) : s.next.imports = s.imports := by
  unfold next; split <;> rfl

@[simp] theorem next_warnings (s : ReadState) : s.next.warnings = s.warnings := by
  unfold next; split <;> rfl

@[simp] theorem next_pending (s : ReadState) : s.next.pending = s.pending.tail := by
  unfold next; split <;> simp_all

/-- A state that looks at no end mark is about to take a token: the one it
looks at is the first of those that are left, and taking it leaves the
others. -/
theorem pending_eq_cons {s : ReadState} (hf : s.final.kind = .eof)
    (h : s.current.kind ≠ .eof) : s.pending = s.current :: s.next.pending := by
  unfold current at h ⊢
  cases hp : s.pending with
  | nil => simp [hp, hf] at h
  | cons t rest => simp [hp]

/-- Taking a token that is no end mark counts. At the end mark the count
stays, since nothing is taken there. -/
theorem next_taken {s : ReadState} (hf : s.final.kind = .eof) (h : s.current.kind ≠ .eof) :
    s.next.taken = s.taken + 1 := by
  unfold next
  rw [pending_eq_cons hf h]

/-- A call begins with a name and a colon. The colon is the token that would
be looked at next, so the question can be asked without taking the name. -/
theorem startsCall_iff {s : ReadState} (hf : s.final.kind = .eof) :
    s.startsCall = true ↔ s.current.kind = .identifier ∧ s.next.current.kind = .colon := by
  unfold startsCall current
  rw [next_pending, next_final]
  match s.pending with
  | [] => simp [hf]
  | [t] => simp [hf]
  | t :: t' :: rest => simp

end ReadState

namespace Read

variable {α β : Type} {s s' : ReadState}

/-! ## Chains of readers -/

/-- **A chain succeeds** if its parts do, one after the other. The second part
works on the state that the first one left. -/
theorem bind_eq_ok {x : Read α} {f : α → Read β} {b : β} :
    (x >>= f) s = .ok b s' ↔ ∃ a s₁, x s = .ok a s₁ ∧ f a s₁ = .ok b s' := by
  show EStateM.bind x f s = _ ↔ _
  unfold EStateM.bind
  cases x s with
  | ok a s₁ => simp [and_assoc]
  | error e s₁ => simp

/-- **A chain fails** if its first part does, or the second after the first.
The state it fails in is that of the part that failed, so one can tell how far
it got. -/
theorem bind_eq_error {x : Read α} {f : α → Read β} {e : CompileError} :
    (x >>= f) s = .error e s' ↔
      x s = .error e s' ∨ ∃ a s₁, x s = .ok a s₁ ∧ f a s₁ = .error e s' := by
  show EStateM.bind x f s = _ ↔ _
  unfold EStateM.bind
  cases x s with
  | ok a s₁ => simp [and_assoc]
  | error e s₁ => simp

/-- A chain whose first part succeeds goes on with its second. -/
theorem bind_of_ok {x : Read α} {f : α → Read β} {a : α} {s₁ : ReadState}
    (h : x s = .ok a s₁) : (x >>= f) s = f a s₁ := by
  show EStateM.bind x f s = _
  unfold EStateM.bind
  rw [h]

@[simp] theorem pure_apply (a : α) (s : ReadState) : (pure a : Read α) s = .ok a s := rfl

@[simp] theorem get_apply (s : ReadState) : (get : Read ReadState) s = .ok s s := rfl

@[simp] theorem throw_apply (e : CompileError) (s : ReadState) :
    (throw e : Read α) s = .error e s := rfl

@[simp] theorem modify_apply (f : ReadState → ReadState) (s : ReadState) :
    (modify f : Read PUnit) s = .ok ⟨⟩ (f s) := rfl

theorem map_of_ok {x : Read α} {a : α} {s₁ : ReadState} (f : α → β) (h : x s = .ok a s₁) :
    (f <$> x) s = .ok (f a) s₁ := by
  show EStateM.map f x s = _
  unfold EStateM.map
  rw [h]

theorem map_eq_bind (f : α → β) (x : Read α) : f <$> x = x >>= fun a => pure (f a) := rfl

/-! ## The primitive readers -/

@[simp] theorem peek_apply (s : ReadState) : peek s = .ok s.current s := rfl

/-- Taking gives the token that is looked at. At the end mark it gives the
mark and takes nothing, as `ReadState.next` says. -/
@[simp] theorem advance_apply (s : ReadState) : advance s = .ok s.current s.next := by
  unfold advance ReadState.next ReadState.current
  rw [bind_of_ok (get_apply s)]
  cases s.pending <;> rfl

@[simp] theorem failAt_apply (t : Token) (fault : Fault) (s : ReadState) :
    (failAt t fault : Read α) s = .error (.atToken fault t) s := rfl

@[simp] theorem unexpected_apply (expected : String) (s : ReadState) :
    (unexpected expected : Read α) s = .error (.unexpected expected s.current) s := rfl

@[simp] theorem sees_apply (kind : TokenKind) (s : ReadState) :
    sees kind s = .ok (s.current.kind == kind) s := rfl

@[simp] theorem seesCall_apply (s : ReadState) : seesCall s = .ok s.startsCall s := rfl

/-- A token of the kind is taken, and any other is left. Either way the reader
succeeds, and says which of the two it was. -/
theorem accept_apply (kind : TokenKind) (s : ReadState) :
    accept kind s = if s.current.kind = kind then .ok true s.next else .ok false s := by
  unfold accept
  rw [bind_of_ok (sees_apply kind s)]
  by_cases h : s.current.kind = kind
  · rw [if_pos (beq_iff_eq.mpr h), if_pos h, bind_of_ok (advance_apply s), pure_apply]
  · rw [if_neg (by simpa using h), if_neg h, pure_apply]

/-- A token of the kind is taken, and any other is a fault. A token that is
blamed is not taken, so the state of the failure still looks at it. -/
theorem expect_apply (kind : TokenKind) (expected : String) (s : ReadState) :
    expect kind expected s =
      if s.current.kind = kind then .ok s.current s.next
      else .error (.unexpected expected s.current) s := by
  unfold expect
  rw [bind_of_ok (sees_apply kind s)]
  by_cases h : s.current.kind = kind
  · rw [if_pos (beq_iff_eq.mpr h), if_pos h, advance_apply]
  · rw [if_neg (by simpa using h), if_neg h, unexpected_apply]

/-- A rule is asked about the scope, which it leaves as it is. Its faults are
those of the reader, at the tokens that the rule blames. -/
theorem rule_apply (check : Scope → Except CompileError α) (s : ReadState) :
    rule check s =
      match check s.scope with
      | .ok a => .ok a s
      | .error e => .error e s := by
  unfold rule
  rw [bind_of_ok (get_apply s)]
  cases check s.scope <;> rfl

@[simp] theorem modifyScope_apply (f : Scope → Scope) (s : ReadState) :
    modifyScope f s = .ok ⟨⟩ { s with scope := f s.scope } := rfl

variable {ε : Type} {op : EStateM ε Scope Unit}

/-- A name is given a meaning by an operation that succeeds. -/
theorem introduce_of_ok (t : Token) {u : Unit} {scope : Scope} (h : op s.scope = .ok u scope) :
    introduce t op s = .ok ⟨⟩ { s with scope := scope } := by
  unfold introduce
  rw [bind_of_ok (get_apply s), h]
  rfl

/-- An operation that fails is a fault at the name, and what it left is kept.
The fault is always that of a name with two meanings, whatever the operation
says. -/
theorem introduce_of_error (t : Token) {e : ε} {scope : Scope} (h : op s.scope = .error e scope) :
    introduce t op s =
      .error (.atToken (.redeclared t.lexeme) t) { s with scope := scope } := by
  unfold introduce
  rw [bind_of_ok (get_apply s), h]
  rfl

/-- Reading `accept` backwards: which token stood here is told by the
answer. -/
theorem accept_eq_ok {kind : TokenKind} {b : Bool} :
    accept kind s = .ok b s' ↔
      (s.current.kind = kind ∧ b = true ∧ s' = s.next) ∨
      (s.current.kind ≠ kind ∧ b = false ∧ s' = s) := by
  rw [accept_apply]
  by_cases h : s.current.kind = kind
  · simp [h, eq_comm]
  · simp [h, eq_comm]

/-- Reading `expect` backwards: a success means that the token had the kind,
and that it was the one taken. -/
theorem expect_eq_ok {kind : TokenKind} {expected : String} {t : Token} :
    expect kind expected s = .ok t s' ↔ s.current.kind = kind ∧ t = s.current ∧ s' = s.next := by
  rw [expect_apply]
  by_cases h : s.current.kind = kind
  · simp [h, eq_comm]
  · simp [h]

theorem rule_eq_ok {check : Scope → Except CompileError α} {a : α} :
    rule check s = .ok a s' ↔ check s.scope = .ok a ∧ s' = s := by
  rw [rule_apply]
  cases check s.scope with
  | ok b => simp [eq_comm]
  | error e => simp

/-- A name is given a meaning exactly if its operation succeeds, and then the
scope is what the operation left. -/
theorem introduce_eq_ok {t : Token} {u : Unit} :
    introduce t op s = .ok u s' ↔
      ∃ scope, op s.scope = .ok ⟨⟩ scope ∧ s' = { s with scope := scope } := by
  cases h : op s.scope with
  | ok u' scope => simp [introduce_of_ok t h, eq_comm]
  | error e scope => simp [introduce_of_error t h]

end Read

end MapleCompiler
