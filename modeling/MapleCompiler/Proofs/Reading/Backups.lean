import MapleCompiler.Program.Equality
import MapleCompiler.Proofs.Reading.Alone

/-!
# Restores without a backup

Reading warns of a restore if nothing was saved under its name before. The
warnings arise one by one, deep inside of nested statements, but what they are
can be said of the program alone: list its nodes in pre-order, each before its
own body, and look at what stands before a restore (`Node.restores`). The places
of the warnings are those of names in the text, the tokens right after the word
`load` (`Token.loaded`).

The invariant of a reading is `ReadState.After`: the nodes up to here account for
the backups, the names that were loaded and the warnings. It is kept by every
change that a reading makes, if the nodes that are added have the events of the
change (`ReadState.After.of_change`). Only saves and restores do something to the
account. That a reading makes changes with the events of its nodes is known of
all readers, so nothing is said about single readers here.

Main statement: `Program.ofTokens_warnings`.
-/

namespace MapleCompiler

/-! ## Saves and restores of a program -/

namespace Node

/-- The name that a node saves. -/
def saved? : Node → Option String
  | .save x => some x
  | _ => none

/-- The names that some nodes save. -/
def saved (nodes : List Node) : List String := nodes.filterMap saved?

/-- The name that a node restores. -/
def restored? : Node → Option String
  | .restore x => some x
  | _ => none

/-- **A restore in a list of nodes**: its name, and the nodes before it. -/
structure Restore where
  name : String
  before : List Node

/-- The restores of a list, with other nodes before all of it. -/
def restoresAfter (before : List Node) : List Node → List Restore
  | [] => []
  | node :: rest =>
    (node.restored?.map (Restore.mk · before)).toList ++ restoresAfter (before ++ [node]) rest

/-- **The restores of a list**, in its order. -/
def restores (nodes : List Node) : List Restore := restoresAfter [] nodes

/-- **The warnings for a list of nodes**, whose restores are written with the
given names: one for each restore with no save of its name before it. -/
def restoreWarnings (nodes : List Node) (names : List Token) : List Warning :=
  ((restores nodes).zip names).filterMap fun entry =>
    if entry.1.name ∈ saved entry.1.before then none
    else some (.restoreWithoutBackup entry.1.name entry.2.span)

/-- The restores of two lists one after the other. Those of the second have
the nodes of the first before them. -/
theorem restoresAfter_append (before nodes rest : List Node) :
    restoresAfter before (nodes ++ rest) =
      restoresAfter before nodes ++ restoresAfter (before ++ nodes) rest := by
  induction nodes generalizing before with
  | nil => rw [List.nil_append, List.append_nil, restoresAfter, List.nil_append]
  | cons node nodes ih =>
    rw [List.cons_append, restoresAfter, restoresAfter, ih, List.append_assoc, List.append_assoc,
      List.singleton_append]

/-- One more node adds at most one restore, with all of the list before it. -/
theorem restores_concat (nodes : List Node) (node : Node) :
    restores (nodes ++ [node]) =
      restores nodes ++ (node.restored?.map (Restore.mk · nodes)).toList := by
  unfold restores
  rw [restoresAfter_append, List.nil_append, restoresAfter, restoresAfter, List.append_nil]

theorem saved_concat (nodes : List Node) (node : Node) :
    saved (nodes ++ [node]) = saved nodes ++ node.saved?.toList := by
  unfold saved
  rw [List.filterMap_append]
  cases h : node.saved? with
  | none => rw [List.filterMap_cons_none h]; rfl
  | some x => rw [List.filterMap_cons_some h]; rfl

/-- One more restore is warned of exactly if its name was not saved before.
The warnings for the list so far stay as they are. -/
theorem restoreWarnings_concat {nodes : List Node} {names : List Token}
    (hlength : (restores nodes).length = names.length) (x : String) (t : Token) :
    restoreWarnings (nodes ++ [.restore x]) (names ++ [t]) = restoreWarnings nodes names ++
      if x ∈ saved nodes then [] else [.restoreWithoutBackup x t.span] := by
  unfold restoreWarnings
  rw [restores_concat, List.zip_append hlength, List.filterMap_append]
  congr 1
  by_cases hmem : x ∈ saved nodes
  · rw [if_pos hmem]
    exact List.filterMap_cons_none (if_pos hmem)
  · rw [if_neg hmem]
    exact List.filterMap_cons_some (if_neg hmem)

/-- A node without an event neither saves nor restores, so the account does
not change with it. -/
theorem plain_of_event? {node : Node} (h : node.event? = none) :
    node.saved? = none ∧ node.restored? = none := by
  cases node <;> first | exact ⟨rfl, rfl⟩ | cases h

end Node

/-- **The names that are loaded**: the tokens right after the word `load`,
whatever they are. In a text that is read they are names. -/
def Token.loaded : List Token → List Token
  | [] => []
  | t :: rest => if t.kind = .load then rest.head?.toList ++ loaded rest else loaded rest

/-! ## The account of what was read -/

namespace ReadState

variable {s s' : ReadState} {tokens : List Token} {before nodes : List Node} {events : List Event}

/-- Taking a word other than `load` leaves the names that are still to be
loaded. Where `load` is taken, it is taken together with its name. -/
theorem loaded_next (hk : s.current.kind ≠ .load) :
    Token.loaded s.next.pending = Token.loaded s.pending := by
  rw [next_pending]
  unfold current at hk
  cases hp : s.pending with
  | nil => rfl
  | cons t rest =>
    rw [hp, List.headD_cons] at hk
    rw [List.tail_cons, Token.loaded, if_neg hk]

/-- **The state after some nodes were read**: they account for the backups
that are known, for the names that were loaded, and for the warnings. The
names that are still to be loaded are those of the tokens that are left. -/
structure After (tokens : List Token) (nodes : List Node) (s : ReadState) : Prop where
  cursor : s.AtCursor tokens
  backups : ∀ x, x ∈ s.scope.backups ↔ x ∈ Node.saved nodes
  account : ∃ names, Token.loaded (Token.words tokens) = names ++ Token.loaded s.pending ∧
    names.map Token.lexeme = (Node.restores nodes).map Node.Restore.name ∧
    s.warnings = Node.restoreWarnings nodes names

namespace After

theorem start (tokens : List Token) : (ofTokens tokens).After tokens [] where
  cursor := atCursor_ofTokens tokens
  backups _ := Iff.rfl
  account := ⟨[], rfl, rfl, rfl⟩

/-- Nothing is saved or loaded on the way to a state with the same names to be
loaded, the same backups and the same warnings. -/
theorem silent (h : s.After tokens before) (hleads : s.Leads s')
    (hnames : Token.loaded s'.pending = Token.loaded s.pending)
    (hbackups : s'.scope.backups = s.scope.backups) (hwarnings : s'.warnings = s.warnings) :
    s'.After tokens before where
  cursor := hleads.atCursor h.cursor
  backups x := by rw [hbackups]; exact h.backups x
  account := by rw [hnames, hwarnings]; exact h.account

/-- A node that does not restore leaves the account of the restores, also if
it saves something: what matters to a warning is what was saved before. -/
theorem account_concat (h : s.After tokens before) {node : Node}
    (hrestored : node.restored? = none) :
    ∃ names, Token.loaded (Token.words tokens) = names ++ Token.loaded s.pending ∧
      names.map Token.lexeme = (Node.restores (before ++ [node])).map Node.Restore.name ∧
      s.warnings = Node.restoreWarnings (before ++ [node]) names := by
  have hrestores : Node.restores (before ++ [node]) = Node.restores before := by
    rw [Node.restores_concat, hrestored]
    exact List.append_nil _
  simp only [Node.restoreWarnings, hrestores]
  exact h.account

theorem plain (h : s.After tokens before) {node : Node} (hsaved : node.saved? = none)
    (hrestored : node.restored? = none) : s.After tokens (before ++ [node]) where
  cursor := h.cursor
  backups x := by
    rw [Node.saved_concat, hsaved, h.backups x]
    exact iff_of_eq (congrArg (x ∈ ·) (List.append_nil _).symm)
  account := h.account_concat hrestored

/-- Nodes without an event, one after the other, may be added to any account.
By induction on the nodes. -/
theorem plains (h : s.After tokens before) (hnodes : nodes.filterMap Node.event? = []) :
    s.After tokens (before ++ nodes) := by
  induction nodes generalizing before with
  | nil =>
    rw [List.append_nil]
    exact h
  | cons node rest ih =>
    have hnone := List.filterMap_eq_nil_iff.mp hnodes
    obtain ⟨hsaved, hrestored⟩ := Node.plain_of_event? (hnone node List.mem_cons_self)
    rw [List.append_cons]
    refine ih (h.plain hsaved hrestored) (List.filterMap_eq_nil_iff.mpr fun node hnode => ?_)
    exact hnone node (List.mem_cons_of_mem _ hnode)

/-- **A save** is added to the backups. It has no effect on the warnings for
the restores before it. -/
theorem save (h : s.After tokens before) (x : String) :
    ({ s with scope := s.scope.recordBackup x } : ReadState).After tokens
      (before ++ [.save x]) where
  cursor := Move.atCursor (s := s) (.know rfl rfl rfl) h.cursor
  backups y := by
    show y ∈ x :: s.scope.backups ↔ _
    rw [Node.saved_concat, List.mem_append, ← h.backups y, List.mem_cons, or_comm]
    exact or_congr_right List.mem_singleton.symm
  account := h.account_concat rfl

/-- The word `load` and the name after it are one entry of the names, the next
one. -/
theorem loaded_load (h : s.After tokens before) (hk : s.current.kind = .load)
    (hname : s.next.current.kind = .identifier) :
    Token.loaded s.pending = s.next.current :: Token.loaded s.next.next.pending := by
  rw [pending_eq_cons h.cursor.final_kind (hk ▸ nofun), Token.loaded, if_pos hk,
    ← loaded_next (s := s.next) (hname ▸ nofun),
    pending_eq_cons h.cursor.next.final_kind (hname ▸ nofun)]
  rfl

/-- **A restore** loads the name that stands after the word, and it is warned
of if its name is not among the backups. As these are the names that the nodes
before it save, the warning is the one that the account asks for. -/
theorem restore (h : s.After tokens before) (hk : s.current.kind = .load)
    (hname : s.next.current.kind = .identifier) :
    ReadState.After tokens (before ++ [.restore s.next.current.lexeme])
      (if s.scope.hasBackup s.next.current.lexeme then s.next.next
        else { s.next.next with warnings := s.warnings ++
          [.restoreWithoutBackup s.next.current.lexeme s.next.current.span] }) := by
  obtain ⟨names, hloaded, hlexemes, hwarnings⟩ := h.account
  have hlength : (Node.restores before).length = names.length := by
    simpa using (congrArg List.length hlexemes).symm
  have hloaded' : Token.loaded (Token.words tokens) =
      (names ++ [s.next.current]) ++ Token.loaded s.next.next.pending := by
    rw [hloaded, h.loaded_load hk hname, List.append_assoc, List.singleton_append]
  have hlexemes' : (names ++ [s.next.current]).map Token.lexeme =
      (Node.restores (before ++ [.restore s.next.current.lexeme])).map Node.Restore.name := by
    rw [Node.restores_concat, List.map_append, List.map_append, hlexemes]
    rfl
  have hsaved (x : String) : x ∈ s.next.next.scope.backups ↔
      x ∈ Node.saved (before ++ [Node.restore s.next.current.lexeme]) := by
    rw [next_scope, next_scope, Node.saved_concat, h.backups x]
    exact iff_of_eq (congrArg (x ∈ ·) (List.append_nil _).symm)
  have hwarned := Node.restoreWarnings_concat hlength s.next.current.lexeme s.next.current
  rw [← hwarnings] at hwarned
  have hb : s.scope.hasBackup s.next.current.lexeme = true ↔
      s.next.current.lexeme ∈ Node.saved before := by
    rw [← h.backups, Scope.hasBackup, List.contains_iff_mem]
  by_cases hmem : s.next.current.lexeme ∈ Node.saved before
  · rw [if_pos (hb.mpr hmem)]
    rw [if_pos hmem, List.append_nil] at hwarned
    refine ⟨h.cursor.next.next, hsaved, _, hloaded', hlexemes', ?_⟩
    rw [next_warnings, next_warnings, hwarned]
  · rw [if_neg (mt hb.mp hmem)]
    rw [if_neg hmem] at hwarned
    exact ⟨Move.atCursor (s := s.next.next) (.know rfl rfl rfl) h.cursor.next.next, hsaved, _,
      hloaded', hlexemes', hwarned.symm⟩

/-- A change with one event, among nodes of which one has it: the others are
plain, before it and after it. -/
theorem of_event {event : Event} {s' : ReadState}
    (hnode : ∀ before node, node.event? = some event → s.After tokens before →
      s'.After tokens (before ++ [node]))
    (h : s.After tokens before) (hnodes : nodes.filterMap Node.event? = [event]) :
    s'.After tokens (before ++ nodes) := by
  obtain ⟨plain, node, rest, rfl, hplain, hevent, hrest⟩ := List.filterMap_eq_cons_iff.mp hnodes
  have hbefore := h.plains (List.filterMap_eq_nil_iff.mpr hplain)
  have hafter := (hnode _ node hevent hbefore).plains hrest
  rwa [List.append_assoc, List.append_assoc, List.singleton_append] at hafter

/-- **Every change keeps the account**, if nodes with its events are added. By
cases on the kind of change; only a save and a restore do something to it. -/
theorem of_change (h : s.After tokens before) (hchange : s.Change events s')
    (hnodes : nodes.filterMap Node.event? = events) : s'.After tokens (before ++ nodes) := by
  cases hchange with
  | take hword =>
    refine (h.silent s.leads_next (loaded_next hword) ?_ s.next_warnings).plains hnodes
    rw [next_scope]
  | declare symbol => exact .plains (h.silent (leads_know rfl rfl rfl) rfl rfl rfl) hnodes
  | bindings blocks => exact .plains (h.silent (leads_know rfl rfl rfl) rfl rfl rfl) hnodes
  | save name =>
    refine h.of_event (fun before node hevent h => ?_) hnodes
    obtain rfl : node = .save name := by
      cases node <;> cases hevent
      rfl
    exact h.save name
  | restore hword hname =>
    refine h.of_event (fun before node hevent h => ?_) hnodes
    obtain rfl : node = .restore s.next.current.lexeme := by
      cases node <;> cases hevent
      rfl
    exact h.restore hword hname
  | useLibrary hword hname =>
    refine h.of_event (fun before node hevent h => ?_) hnodes
    have hnames : Token.loaded s.next.next.pending = Token.loaded s.pending :=
      (loaded_next (hname ▸ nofun)).trans (loaded_next (hword ▸ nofun))
    have hleads : s.Leads s.next.next := s.leads_next.trans s.next.leads_next
    let used : ReadState :=
      { s.next.next with imports := dropAtSigns s.next.current.lexeme :: s.imports }
    have hused : s.Leads used := hleads.trans (leads_know rfl rfl rfl)
    have hsilent : used.After tokens before := h.silent hused hnames
      (by rw [next_scope, next_scope]) (by rw [next_warnings, next_warnings])
    cases node <;> cases hevent
    exact hsilent.plain rfl rfl

/-- **So do all the changes of a reading.** By induction on the changes; the
nodes are split where the events are. -/
theorem of_changes (h : s.After tokens before) (hchanges : s.Changes events s')
    (hnodes : nodes.filterMap Node.event? = events) : s'.After tokens (before ++ nodes) := by
  induction hchanges generalizing nodes with
  | refl => exact h.plains hnodes
  | tail _ hchange ih =>
    obtain ⟨first, rest, rfl, hfirst, hrest⟩ := List.filterMap_eq_append_iff.mp hnodes
    rw [← List.append_assoc]
    exact (ih hfirst).of_change hchange hrest

end After

end ReadState

/-! ## Units -/

namespace Program

/-- **Exactly the restores without a backup are warned of.** Take the nodes of
a program at any depth, in pre-order. Its restores are, in this order, those
of the names that stand after the word `load` in the text. There is a warning
for each of them that no save of the same name comes before, in the order of
the text; it gives the name, and its place is that of the name. -/
theorem ofTokens_warnings {d : Dialect} {library : Bool} {tokens : List Token} {p : Program}
    {warnings : List Warning} (h : ofTokens d library tokens = .ok (p, warnings)) :
    (Token.loaded (Token.words tokens)).map Token.lexeme =
        (Node.restores (Node.preorder p.nodes)).map Node.Restore.name ∧
      warnings =
        ((Node.restores (Node.preorder p.nodes)).zip
          (Token.loaded (Token.words tokens))).filterMap fun entry =>
            if entry.1.name ∈ Node.saved entry.1.before then none
            else some ⟨"W001",
              "'" ++ entry.1.name ++ "' is restored before any backup of it was taken",
              entry.2.span⟩ := by
  unfold ofTokens at h
  dsimp only at h
  split at h
  · next nodes s' hread =>
    obtain ⟨rfl, rfl⟩ := Prod.mk.inj (Except.ok.inj h)
    have hbodies := Tandem.bodies_statements (T := .alone d (.ofTokens tokens)) (c := 0)
      ((ReadState.ofTokens tokens).pending.length + 1)
    have hfirst := Tandem.first_alone (d := d) (ReadState.proper_ofTokens tokens)
    obtain ⟨-, _, _, hchanges, rfl, -⟩ := (hbodies.reads _ _ _ rfl (.unit library)).changes hfirst
      (Nat.zero_le _) trivial hread
    have hafter := (ReadState.After.start tokens).of_changes hchanges rfl
    have hends := hbodies.ends _ _ _ _ _ _ rfl (.unit library) hfirst (Nat.zero_le _) hread
    have hpending : s'.pending = [] := hafter.cursor.proper.pending_eq_nil_iff.mpr
      (Enclosure.verdict_unit_eq_ends.mp hends)
    obtain ⟨names, hloaded, hlexemes, hwarnings⟩ := hafter.account
    rw [hpending, Token.loaded, List.append_nil] at hloaded
    rw [hloaded]
    exact ⟨hlexemes, hwarnings⟩
  · cases h

/-- A variable is restored three times, twice in a conditional in a loop. It
is saved in the branch before the last restore, so only two warnings are
given. -/
theorem ofTokens_warnings_nested :
    ∃ tokens p warnings,
      Token.scan .maple ("dec ch i32 x 1\nload x\nloop i 3\n" ++
        "if i == 1\nload x\nback x\nelse\nload x\nend\nroll") = .ok tokens ∧
      ofTokens .maple false tokens = .ok (p, warnings) ∧
      warnings =
        [.restoreWithoutBackup "x" ⟨20, 1, 2, 6⟩, .restoreWithoutBackup "x" ⟨46, 1, 5, 6⟩] ∧
      (Token.loaded (Token.words tokens)).map Token.lexeme = ["x", "x", "x"] ∧
      (Token.loaded (Token.words tokens)).map Token.lexeme =
        (Node.restores (Node.preorder p.nodes)).map Node.Restore.name ∧
      warnings =
        ((Node.restores (Node.preorder p.nodes)).zip
          (Token.loaded (Token.words tokens))).filterMap fun entry =>
            if entry.1.name ∈ Node.saved entry.1.before then none
            else some ⟨"W001",
              "'" ++ entry.1.name ++ "' is restored before any backup of it was taken",
              entry.2.span⟩ := by
  let tokens : List Token :=
    [⟨.dec, "dec", ⟨0, 1, 1⟩⟩, ⟨.ch, "ch", ⟨4, 1, 5⟩⟩, ⟨.type .i32, "i32", ⟨7, 1, 8⟩⟩,
      ⟨.identifier, "x", ⟨11, 1, 12⟩⟩, ⟨.number, "1", ⟨13, 1, 14⟩⟩,
      ⟨.load, "load", ⟨15, 2, 1⟩⟩, ⟨.identifier, "x", ⟨20, 2, 6⟩⟩,
      ⟨.loop, "loop", ⟨22, 3, 1⟩⟩, ⟨.identifier, "i", ⟨27, 3, 6⟩⟩, ⟨.number, "3", ⟨29, 3, 8⟩⟩,
      ⟨.ifWord, "if", ⟨31, 4, 1⟩⟩, ⟨.identifier, "i", ⟨34, 4, 4⟩⟩,
      ⟨.comparison .equal, "==", ⟨36, 4, 6⟩⟩, ⟨.number, "1", ⟨39, 4, 9⟩⟩,
      ⟨.load, "load", ⟨41, 5, 1⟩⟩, ⟨.identifier, "x", ⟨46, 5, 6⟩⟩,
      ⟨.back, "back", ⟨48, 6, 1⟩⟩, ⟨.identifier, "x", ⟨53, 6, 6⟩⟩,
      ⟨.elseWord, "else", ⟨55, 7, 1⟩⟩, ⟨.load, "load", ⟨60, 8, 1⟩⟩,
      ⟨.identifier, "x", ⟨65, 8, 6⟩⟩, ⟨.endWord, "end", ⟨67, 9, 1⟩⟩,
      ⟨.roll, "roll", ⟨71, 10, 1⟩⟩, .eof ⟨75, 10, 5⟩]
  have hread : ofTokens .maple false tokens =
      .ok (⟨[.declare ⟨.i32, "x", .value "1", false⟩, .restore "x",
          .loop "i" "0" "3" [.ifThen ⟨"i", .equal, "1"⟩ [.restore "x", .save "x"],
            .otherwise [.restore "x"], .endIf], .endLoop]⟩,
        [.restoreWithoutBackup "x" ⟨20, 1, 2, 6⟩, .restoreWithoutBackup "x" ⟨46, 1, 5, 6⟩]) := by
    decide +kernel
  exact ⟨tokens, _, _, by decide +kernel, hread, rfl, by decide +kernel, ofTokens_warnings hread⟩

end Program

end MapleCompiler
