import MapleCompiler.Proofs.Reading.Alone

/-!
# Reading comes to an end

Whatever the tokens are, reading them is safe (`Read.Safe`). The cursor goes over the
stream from its first token on and never passes an end mark, so there is a token to look
at wherever it stands. A statement that was read took a token.

That reading ends is said of its loops. Each of them is written with a budget, which a
total function needs; with a budget above the number of tokens that are left the loop
gives what it would give without: as many rounds as the budget says, and whatever comes
after the last of them is never asked for.
-/

namespace MapleCompiler

open Token

namespace Read

variable {α : Type} {tokens : List Token} {s s' : ReadState}

/-- Wherever a reader ends, with a result or with an error, moves led
there. -/
def Moves (x : Read α) (s : ReadState) : Prop :=
  (∀ a s', x s = .ok a s' → s.Leads s') ∧ ∀ e s', x s = .error e s' → s.Leads s'

/-- A reader that is known in tandem with another one makes moves only,
whether it succeeds or fails. The other reader plays no part. -/
theorem moves_of_tells {T : Tandem} {K : TokenKind → Prop} {c d : Nat} {β : Type}
    {V : List Event → α → β → Prop} {x : Read α} {y : Read β} (h : T.Tells K c d V x y)
    (hs : T.First s) (hc : c ≤ s.taken) (hk : K s.current.kind) : Moves x s :=
  ⟨fun a s' ha => ((h.on s hs hc hk).ok a s' ha).1,
    fun e s' he => ((h.on s hs hc hk).error e s' he).1⟩

/-! ## Loops -/

/-- **A list with commas ends** before its budget is used up, if that is above
the number of tokens that are left: whatever is put behind the last round, the
result is the same. -/
def ListEnds (tokens : List Token) (close : TokenKind) (item : List α → Read α) : Prop :=
  ∀ expected n later (s : ReadState), s.AtCursor tokens → s.pending.length < n →
    listItems close expected item n [] s = (listRound close expected item)^[n] later [] s

/-- A budget above the number of tokens that are left is enough, for a reading
and for the same reading again. -/
theorem enough_alone {d : Dialect} {n n' : Nat} (hn : s.pending.length < n)
    (hn' : s.pending.length < n') : (Tandem.alone d s).Enough s.taken n n' := by
  constructor
  · show s.taken + s.pending.length < n + s.taken
    omega
  · show s.taken + s.pending.length < n' + s.taken
    omega

/-- Lists end if their items take a token each. Two readings of the same list
are compared, one with what is put behind the last round and one with a fault
there. -/
theorem listEnds_of_items {R : ReadState → α → α → Prop} {close : TokenKind}
    (hclose : close.isQuiet = true) {item : List α → Read α}
    (hitem : ∀ s, (Tandem.alone .maple s).Items (R s) item item)
    (heq : ∀ s a b, R s a b → b = a) : ListEnds tokens close item := by
  intro expected n later s hs hn
  rw [listItems_eq_iterate]
  have hrest : (Tandem.alone .maple s).RestOfList (R s) s.taken
      ((listRound close expected item)^[n] later)
      ((listRound close expected item)^[n] fun _ => unexpected expected) :=
    Tandem.restOfList_rounds hclose (hitem s) (enough_alone hn hn) later _
  refine (hrest [] [] .nil).run_eq hs.proper (le_refl _) trivial fun _ a b hab => ?_
  rw [Tandem.eq_map_of_forall₂ (f := id) (hab.2.imp (heq s)), List.map_id]

/-- **Lists of statements end**: two numbers of rounds above the number of
tokens that are left give the same, whatever comes after them. -/
theorem rounds_eq (hs : s.Proper) {n n' : Nat} (hn : s.pending.length < n)
    (hn' : s.pending.length < n') (later later' : BodyReader) (ctx : Context)
    (enclosure : Enclosure) :
    (round^[n'] later') ctx enclosure s = (round^[n] later) ctx enclosure s := by
  have hbodies := Tandem.bodies_rounds (enough_alone (d := ctx.dialect) hn hn') later later'
  have htells := hbodies.reads ctx enclosure enclosure rfl (Tandem.enclosures_alone enclosure)
  rw [Tandem.context_alone rfl] at htells
  exact htells.run_eq hs (le_refl _) trivial fun _ _ _ => Tandem.AllNodes.eq

/-- A list of statements is its rounds, and what stands behind them is never
asked for. -/
theorem statements_eq_rounds (hs : s.Proper) {n : Nat} (hn : s.pending.length < n)
    (later : BodyReader) (ctx : Context) (enclosure : Enclosure) :
    statements n ctx enclosure s = (round^[n] later) ctx enclosure s := by
  rw [statements_eq_iterate]
  exact rounds_eq hs hn hn later _ ctx enclosure

/-- The branches of a condition are their rounds, and what stands behind them
is never asked for. The bodies may be read with any budget. -/
theorem branches_eq_rounds (hs : s.Proper) {n : Nat} (hn : s.pending.length < n) (budget : Nat)
    (later : Read (List Node)) (ctx : Context) :
    branches (statements budget) ctx n s = ((branchRound (statements budget) ctx)^[n] later) s := by
  have hctx : ctx.dialect = (Tandem.alone ctx.dialect s).dialect := rfl
  have htells := Tandem.tells_branchRounds (c := s.taken) (Tandem.bodies_statements budget) hctx
    (enough_alone hn hn) (le_refl _) later (unexpected "'end'")
  rw [Tandem.context_alone rfl] at htells
  rw [branches_eq_iterate]
  exact htells.run_eq hs (le_refl _) trivial fun _ _ _ => Tandem.AllNodes.eq

theorem listEnds_argument : ListEnds tokens .colon fun _ => argument :=
  listEnds_of_items (R := fun _ x x' => x' = x) rfl (fun _ _ _ _ _ => Tandem.reads_argument)
    fun _ _ _ h => h

theorem listEnds_parameter (function : Token) : ListEnds tokens .colon (parameter function) :=
  listEnds_of_items (R := fun s => (Tandem.alone .maple s).Parameters) rfl
    (fun _ => Tandem.items_parameter ⟨rfl, trivial⟩) fun _ _ _ h => Prod.ext h.1.1.1 h.2

theorem listEnds_arrayValue (name : String) (type : ValueType) (size : Nat) :
    ListEnds tokens .rightBrace (arrayValue name type size) :=
  listEnds_of_items (R := fun _ => Eq) rfl (fun _ => Tandem.items_arrayValue rfl type size)
    fun _ _ _ h => h.symm

/-! ## Safety -/

/-- The cursor has passed no end mark: a token of the stream before it is a
word. -/
theorem kind_of_lt_taken (hs : s.AtCursor tokens) {i : Nat} (hi : i < s.taken) {t : Token}
    (ht : (terminated tokens)[i]? = some t) : t.kind ≠ .eof := by
  have hlt : i < (words tokens).length := hi.trans_le hs.taken_le
  obtain ⟨t', ht'⟩ := exists_getElem?_upToEnd hlt.le
  obtain rfl := Option.some.inj ((getElem?_terminated ht').symm.trans ht)
  exact fun heof => hlt.ne ((kind_eq_eof_iff ht').mp heof)

/-- A statement is read with moves only, and if it is read, it took a
token. -/
theorem statement_moves (hs : s.Proper) (budget : Nat) (ctx : Context) :
    Moves (statement (statements budget) ctx) s ∧
      ∀ nodes s', statement (statements budget) ctx s = .ok nodes s' → s.taken < s'.taken := by
  have hfirst := Tandem.first_alone (d := ctx.dialect) hs
  have hctx : ctx.dialect = (Tandem.alone ctx.dialect s).dialect := rfl
  have htells := Tandem.tells_statement (c := s.taken) (Tandem.bodies_statements budget) hctx
  exact ⟨moves_of_tells htells hfirst (le_refl _) trivial,
    fun nodes s' h => (htells.changes hfirst (le_refl _) trivial h).1⟩

/-- A list of statements is read with moves only. It may be empty, so it need
not take a token. -/
theorem statements_moves (hs : s.Proper) (budget : Nat) (ctx : Context) (enclosure : Enclosure) :
    Moves (statements budget ctx enclosure) s :=
  moves_of_tells ((Tandem.bodies_statements (T := .alone ctx.dialect s) (c := 0) budget).reads ctx
    enclosure enclosure rfl (Tandem.enclosures_alone enclosure)) (Tandem.first_alone hs)
    (Nat.zero_le _) trivial

/-- **Reading some tokens is safe.** -/
structure Safe (tokens : List Token) : Prop where
  /-- Reading begins at the first token. -/
  start : (ReadState.ofTokens tokens).AtCursor tokens ∧ (ReadState.ofTokens tokens).taken = 0
  /-- Lists of statements are read with moves only. -/
  statements_moves : ∀ budget ctx enclosure (s : ReadState), s.AtCursor tokens →
    Moves (statements budget ctx enclosure) s
  /-- So is a statement, and if it is read, it took a token. -/
  statement_moves : ∀ budget ctx (s : ReadState), s.AtCursor tokens →
    Moves (statement (statements budget) ctx) s ∧
      ∀ nodes s', statement (statements budget) ctx s = .ok nodes s' → s.taken < s'.taken
  /-- Moves keep the cursor in the stream, at the token that is looked at, and behind no end
  mark. -/
  in_range : ∀ s s' : ReadState, s.AtCursor tokens → s.Leads s' → s'.AtCursor tokens ∧
    (terminated tokens)[s'.taken]? = some s'.current ∧
      ∀ i < s'.taken, ∀ t, (terminated tokens)[i]? = some t → t.kind ≠ .eof
  /-- A list of statements ends before its budget is used up. -/
  statements_end : ∀ n later ctx enclosure (s : ReadState), s.AtCursor tokens →
    s.pending.length < n → statements n ctx enclosure s = (round^[n] later) ctx enclosure s
  /-- So do the branches of a condition. -/
  branches_end : ∀ budget n later ctx (s : ReadState), s.AtCursor tokens → s.pending.length < n →
    branches (statements budget) ctx n s =
      ((branchRound (statements budget) ctx)^[n] later) s
  /-- So do the arguments of a call, -/
  arguments_end : ListEnds tokens .colon fun _ => argument
  /-- the parameters of a function, -/
  parameters_end : ∀ function, ListEnds tokens .colon (parameter function)
  /-- and the values of an array. -/
  values_end : ∀ name type size, ListEnds tokens .rightBrace (arrayValue name type size)
  /-- A unit is read in a round for each of its tokens, and one more. -/
  unit_ends : ∀ d library later, Program.ofTokens d library tokens =
    match (round^[(words tokens).length + 1] later) ⟨d, 0, none⟩ (.unit library)
      (ReadState.ofTokens tokens) with
    | .ok nodes final => .ok (⟨nodes⟩, final.warnings)
    | .error e _ => .error e

/-- **Reading is safe on any tokens**, and comes to an end. Nothing is assumed
of them: the list may be empty, have no end mark, or go on behind one. -/
theorem safe (tokens : List Token) : Safe tokens where
  start := ⟨ReadState.atCursor_ofTokens tokens, rfl⟩
  statements_moves budget ctx enclosure s hs := statements_moves hs.proper budget ctx enclosure
  statement_moves budget ctx s hs := statement_moves hs.proper budget ctx
  in_range s s' hs hleads := by
    have hs' := hleads.atCursor hs
    exact ⟨hs', getElem?_terminated hs'.getElem?_taken, fun i hi t => kind_of_lt_taken hs' hi⟩
  statements_end n later ctx enclosure s hs hn :=
    statements_eq_rounds hs.proper hn later ctx enclosure
  branches_end budget n later ctx s hs hn := branches_eq_rounds hs.proper hn budget later ctx
  arguments_end := listEnds_argument
  parameters_end := listEnds_parameter
  values_end := listEnds_arrayValue
  unit_ends d library later := by
    have hn : (ReadState.ofTokens tokens).pending.length < (words tokens).length + 1 :=
      Nat.lt_succ_self _
    rw [← statements_eq_rounds (ReadState.proper_ofTokens tokens) hn later]
    rfl

end Read

end MapleCompiler
