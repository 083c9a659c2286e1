import MapleCompiler.Proofs.Parser.Following
import MapleCompiler.Proofs.Reading.Termination

/-!
# The parser is safe

A parser can go wrong where a reader cannot. It looks at its tokens by an index, which has
to be one of the stream. It counts the blocks it is in, and takes one from the count when it
leaves a block: with a count of zero that would be no number. And it goes on as long as it
finds statements, so each of them has to take a token. On whatever tokens it is started,
none of this goes wrong (`Parser.Safe`).

Most of it is known of the readers (`Read.Safe`), and the parser does what they do
(`Parser.Follows`): its cursor is the reader's, so it stays where the reader's stays. The
count of the blocks is the parser's own. After a body it is what it was before, one more than
outside of the block, so one can be taken from it.

## Loops

What the parser repeats, it repeats with a budget. That a larger budget gives the same does
not yet say that the loop ends, since a loop that never takes a token would fail with every
budget. So the budget is compared with as many rounds (`Parser.round`, `Parser.branchRound`)
after which *any* error comes: the outcome is the same for all of these errors only if none of
them is reached.
-/

namespace MapleCompiler

open Token

namespace Parser

variable {tokens : List Token} {p p' : Parser} {α β : Type}

/-! ## The cursor -/

/-- **The cursor is in range**: the parser has the stream of some tokens, and
its cursor has not passed the first end mark. -/
structure InRange (tokens : List Token) (p : Parser) : Prop where
  tokens_eq : p.tokens = terminated tokens
  cursor_le : p.cursor ≤ (words tokens).length

namespace InRange

/-- While the cursor is in range, what the parser sees stands at its
cursor. -/
theorem atCursor (h : p.InRange tokens) : p.view.AtCursor tokens :=
  atCursor_view h.tokens_eq h.cursor_le

/-- The stream has a token at the cursor, and it is the one that is looked at.
The parser never has to ask for a token behind the stream. -/
theorem getElem?_cursor (h : p.InRange tokens) : p.tokens[p.cursor]? = some p.view.current := by
  rw [h.tokens_eq]
  exact getElem?_terminated h.atCursor.getElem?_taken

/-- Moves of a reader keep the cursor in range, if the parser still has the
same tokens. -/
theorem of_leads (h : p.InRange tokens) (htokens : p'.tokens = p.tokens)
    (hleads : p.view.Leads p'.view) : p'.InRange tokens :=
  ⟨htokens.trans h.tokens_eq, (hleads.atCursor h.atCursor).taken_le⟩

end InRange

/-- Wherever a parser ends, with a result or with an error, its cursor is in
range. -/
def KeepsRange (tokens : List Token) (x : Parse α) (p : Parser) : Prop :=
  (∀ a p', x p = .ok a p' → p'.InRange tokens) ∧ ∀ e p', x p = .error e p' → p'.InRange tokens

/-- What follows a reader keeps the cursor in range, since readers only move.
That holds of failures too, where the parser still sees what the reader
saw. -/
theorem Follows.keepsRange {k : β → α} {x : Parse α} {r : Read β} (h : Follows k x r p)
    (hp : p.InRange tokens) : KeepsRange tokens x p := by
  constructor
  · intro a p' hx
    obtain ⟨b, s, -, hgrows, -, rfl⟩ := h.exists_ok hx
    exact hp.of_leads rfl ((view_follow hgrows.leads).symm ▸ hgrows.leads)
  · intro e p' hx
    obtain ⟨s, -, hleads, htokens, hview⟩ := h.exists_error hx
    exact hp.of_leads htokens (hview.symm ▸ hleads)

/-! ## The depth -/

/-- **A block is left at the depth at which it was entered.** The body ends
one block deeper, so the depth is positive where the block takes one from it.
If the body did not lead back to its own depth, the difference could be cut
off at zero and hide it. -/
theorem exists_of_block {budget : Nat} {enclosure : Enclosure} {nodes : List Node}
    (h : block (statements budget) enclosure p = .ok nodes p') :
    ∃ q, statements budget enclosure [] { p with depth := p.depth + 1 } = .ok nodes q ∧
      0 < q.depth ∧ p' = { q with depth := q.depth - 1 } ∧ p'.depth = p.depth := by
  have henter : (modify fun p => { p with depth := p.depth + 1 } : Parse PUnit) p =
      .ok ⟨⟩ { p with depth := p.depth + 1 } := rfl
  unfold block at h
  rw [bind_of_ok henter] at h
  cases hbody : statements budget enclosure [] { p with depth := p.depth + 1 } with
  | ok inner q =>
    rw [bind_of_ok hbody] at h
    obtain ⟨rfl, rfl⟩ := EStateM.Result.ok.inj h
    obtain ⟨_, s, -, -, -, rfl⟩ := (follows_statements budget _ enclosure []).exists_ok hbody
    exact ⟨_, rfl, Nat.succ_pos _, rfl, rfl⟩
  | error e q =>
    rw [bind_of_error hbody] at h
    cases h

/-! ## Outcomes -/

/-- What comes of a parser: its result and the parser after it, or an
error. -/
def outcome (x : Parse α) (p : Parser) : Except CompileError (α × Parser) :=
  match x p with
  | .ok a p' => .ok (a, p')
  | .error e _ => .error e

theorem eq_ok_of_outcome {x : Parse α} {a : α} (h : outcome x p = .ok (a, p')) :
    x p = .ok a p' := by
  unfold outcome at h
  split at h
  · next hx =>
    obtain ⟨rfl, rfl⟩ := Prod.mk.inj (Except.ok.inj h)
    exact hx
  · cases h

/-- What follows readers that do the same has the same outcome. After a
failure the parsers may differ, in what they had entered; so it is left
out. -/
theorem Follows.outcome_eq {k : β → α} {x y : Parse α} {r q : Read β} (hx : Follows k x r p)
    (hy : Follows k y q p) (h : r p.view = q p.view) : outcome x p = outcome y p := by
  unfold outcome
  cases hr : r p.view with
  | ok b s =>
    rw [(hx.ok b s hr).2, (hy.ok b s (h ▸ hr)).2]
  | error e s =>
    obtain ⟨-, _, hx, -⟩ := hx.error e s hr
    obtain ⟨-, _, hy, -⟩ := hy.error e s (h ▸ hr)
    rw [hx, hy]

theorem bodyFollows_throw (error : CompileError) :
    BodyFollows (fun _ _ => throw error) fun _ _ => throw error := fun _ _ _ => .throw error

/-- **Lists of statements end** before a budget above the number of tokens
that are left is used up: with any error behind the last round the outcome is
the same, so none of these errors is reached. -/
theorem outcome_statements {n : Nat} (hn : p.view.pending.length < n) (error : CompileError)
    (enclosure : Enclosure) (nodes : List Node) :
    outcome (statements n enclosure nodes) p =
      outcome ((round^[n] fun _ _ => throw error) enclosure nodes) p :=
  (follows_statements n p enclosure nodes).outcome_eq
    (follows_rounds (bodyFollows_throw error) n p enclosure nodes)
    (Read.statements_eq_rounds p.proper_view hn _ p.context enclosure)

/-- So do the branches of a condition, whatever the budget of their bodies
is. -/
theorem outcome_branches {n : Nat} (hn : p.view.pending.length < n) (error : CompileError)
    (budget : Nat) (nodes : List Node) :
    outcome (branches (statements budget) n nodes) p =
      outcome ((branchRound (statements budget))^[n] (fun _ => throw error) nodes) p :=
  (follows_branches (follows_statements budget) n _ p nodes rfl).outcome_eq
    (follows_branchRounds (follows_statements budget) (fun _ _ _ => .throw error) n p nodes rfl)
    (Read.branches_eq_rounds p.proper_view hn budget _ p.context)

/-- What the parser gives for a unit is the outcome of its list of
statements. -/
theorem program_eq_outcome (d : Dialect) (library : Bool) :
    program d library tokens = (outcome (statements ((words tokens).length + 1) (.unit library) [])
      (ofTokens d library tokens)).map fun result => (⟨result.1⟩, result.2.warnings) := by
  have hlength : (ofTokens d library tokens).view.pending = words tokens := by
    rw [view_ofTokens]
    rfl
  have hparse : parse (ofTokens d library tokens) =
      statements ((ofTokens d library tokens).view.pending.length + 1) (.unit library) []
        (ofTokens d library tokens) := rfl
  rw [hlength] at hparse
  unfold program outcome
  rw [hparse]
  cases statements ((words tokens).length + 1) (.unit library) [] (ofTokens d library tokens) with
  | ok nodes p => rfl
  | error e p => rfl

/-! ## Safety -/

/-- **Parsing some tokens is safe.** -/
structure Safe (tokens : List Token) : Prop where
  /-- The readers to which the parser leaves its smaller parts are safe on the tokens. -/
  reads : Read.Safe tokens
  /-- Parsing begins at the first token of the stream, outside of all blocks. -/
  start : ∀ d library, (ofTokens d library tokens).InRange tokens ∧
    (ofTokens d library tokens).cursor = 0 ∧ (ofTokens d library tokens).depth = 0
  /-- While the cursor is in range, there is a token to look at, and no end mark before it. -/
  in_range : ∀ p : Parser, p.InRange tokens → p.tokens[p.cursor]? = some p.view.current ∧
    ∀ i < p.cursor, ∀ t, p.tokens[i]? = some t → t.kind ≠ .eof
  /-- Lists of statements keep the cursor in range. -/
  statements_keep : ∀ budget enclosure nodes (p : Parser), p.InRange tokens →
    KeepsRange tokens (statements budget enclosure nodes) p
  /-- So does a statement, and if it is parsed, the cursor went forward. -/
  statement_moves : ∀ budget nodes (p : Parser), p.InRange tokens →
    KeepsRange tokens (statement (statements budget) nodes) p ∧
      ∀ nodes' p', statement (statements budget) nodes p = .ok nodes' p' → p.cursor < p'.cursor
  /-- The depth is positive where a block takes one from it, and is then what it was before
  the block. -/
  block_leaves : ∀ budget enclosure (p : Parser) nodes p',
    block (statements budget) enclosure p = .ok nodes p' →
      ∃ q, statements budget enclosure [] { p with depth := p.depth + 1 } = .ok nodes q ∧
        0 < q.depth ∧ p' = { q with depth := q.depth - 1 } ∧ p'.depth = p.depth
  /-- A list of statements ends before its budget is used up: whatever error would come
  then, it does not come. -/
  statements_end : ∀ n error enclosure nodes (p : Parser), p.view.pending.length < n →
    outcome (statements n enclosure nodes) p =
      outcome ((round^[n] fun _ _ => throw error) enclosure nodes) p
  /-- So do the branches of a condition. -/
  branches_end : ∀ budget n error nodes (p : Parser), p.view.pending.length < n →
    outcome (branches (statements budget) n nodes) p =
      outcome ((branchRound (statements budget))^[n] (fun _ => throw error) nodes) p
  /-- A unit is parsed in a round for each of its tokens, and one more. -/
  unit_ends : ∀ d library error, program d library tokens =
    (outcome ((round^[(words tokens).length + 1] fun _ _ => throw error) (.unit library) [])
      (ofTokens d library tokens)).map fun result => (⟨result.1⟩, result.2.warnings)

/-- **The parser is safe on any tokens**, and comes to an end. Nothing is
assumed of them: the list may be empty, have no end mark, or go on behind
one. -/
theorem safe_of_tokens (tokens : List Token) : Safe tokens where
  reads := Read.safe tokens
  start _ _ := ⟨⟨rfl, Nat.zero_le _⟩, rfl, rfl⟩
  in_range p hp := by
    refine ⟨hp.getElem?_cursor, fun i hi t ht => ?_⟩
    rw [hp.tokens_eq] at ht
    exact Read.kind_of_lt_taken hp.atCursor hi ht
  statements_keep budget enclosure nodes p hp :=
    (follows_statements budget p enclosure nodes).keepsRange hp
  statement_moves budget nodes p hp := by
    have hfollows := follows_statement (follows_statements budget) nodes p
    refine ⟨hfollows.keepsRange hp, fun nodes' p' h => ?_⟩
    obtain ⟨new, s, hread, -, -, rfl⟩ := hfollows.exists_ok h
    exact (Read.statement_moves p.proper_view budget p.context).2 new s hread
  block_leaves _ _ _ _ _ h := exists_of_block h
  statements_end _ error enclosure nodes _ hn := outcome_statements hn error enclosure nodes
  branches_end budget _ error nodes _ hn := outcome_branches hn error budget nodes
  unit_ends d library error := by
    have hlength : (ofTokens d library tokens).view.pending.length < (words tokens).length + 1 := by
      rw [view_ofTokens]
      exact Nat.lt_succ_self _
    rw [program_eq_outcome, outcome_statements hlength error]

end Parser

end MapleCompiler
