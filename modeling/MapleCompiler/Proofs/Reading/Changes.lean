import MapleCompiler.Proofs.Acceptance.Judgement
import MapleCompiler.Proofs.Reading.Cursor
import MapleCompiler.Proofs.Scope.Rules

/-!
# What a reader may change

A reader that succeeds came from one state to another by small changes, and there are few
kinds of them (`ReadState.Change`). A token is taken, a name is declared, the bindings
change. None of these takes anything back, the bindings apart, so what was known before a
run is known after it (`ReadState.Changes.grows`).

Three kinds of changes are *events*, and a run keeps a list of them: a variable is saved, it
is restored, a library is imported. The last two take the tokens of their statement with
them, the keyword and the name right behind it. So the word `load` is taken by a restore and
by nothing else, and an import is known to come from the word `lib`. The events of a run are
those of the nodes that it gives back, at any depth and in the order of the text
(`Node.events`); that is said reader by reader in the modules that follow.
-/

namespace MapleCompiler

/-! ## Events -/

/-- **Something that a program does to what a reader knows**, apart from
names. -/
inductive Event
  | save (name : String)
  | restore (name : String)
  | useLibrary (name : String) (span : Span)

namespace Node

mutual

/-- A node and the nodes of its body, each before its own body. -/
def inPreorder : Node → List Node
  | .run count body => .run count body :: preorder body
  | .ifThen c body => .ifThen c body :: preorder body
  | .elseIf c body => .elseIf c body :: preorder body
  | .otherwise body => .otherwise body :: preorder body
  | .loop counter start stop body => .loop counter start stop body :: preorder body
  | .function s body => .function s body :: preorder body
  | node => [node]

/-- **The nodes of a list at any depth**, in pre-order. -/
def preorder : List Node → List Node
  | [] => []
  | node :: rest => node.inPreorder ++ preorder rest

end

/-- In pre-order a node comes before its body, and its body before the nodes
that follow it. -/
theorem preorder_cons (node : Node) (rest : List Node) :
    preorder (node :: rest) = node :: (preorder node.body ++ preorder rest) := by
  rw [preorder]
  cases node <;> simp [inPreorder, body, preorder]

/-- The nodes of two lists one after the other come in that order, at any
depth. -/
theorem preorder_append (nodes rest : List Node) :
    preorder (nodes ++ rest) = preorder nodes ++ preorder rest := by
  induction nodes with
  | nil => rw [preorder, List.nil_append, List.nil_append]
  | cons node nodes ih =>
    rw [List.cons_append, preorder, preorder, ih, List.append_assoc]

theorem preorder_singleton {node : Node} (h : node.body = []) : preorder [node] = [node] := by
  rw [preorder_cons, h, preorder, List.append_nil]

theorem mem_preorder {node : Node} {nodes : List Node} (h : node ∈ nodes) :
    node ∈ preorder nodes := by
  induction nodes with
  | nil => cases h
  | cons first rest ih =>
    rw [preorder_cons]
    obtain rfl | h := List.mem_cons.mp h
    · exact List.mem_cons_self
    · exact List.mem_cons_of_mem _ (List.mem_append_right _ (ih h))

/-- The event of a node, apart from its body. -/
def event? : Node → Option Event
  | .save x => some (.save x)
  | .restore x => some (.restore x)
  | .useLibrary name span => some (.useLibrary name span)
  | _ => none

/-- **The events of a list of nodes** at any depth, in pre-order. -/
def events (nodes : List Node) : List Event := (preorder nodes).filterMap event?

@[simp] theorem events_nil : events [] = [] := by
  rw [events, preorder, List.filterMap_nil]

theorem events_append (nodes rest : List Node) :
    events (nodes ++ rest) = events nodes ++ events rest := by
  rw [events, preorder_append, List.filterMap_append]
  rfl

/-- A node that is no event itself has the events of its body. This is the
case of every statement with a body: only statements without one are
events. -/
theorem events_cons {node : Node} (h : node.event? = none) (rest : List Node) :
    events (node :: rest) = events node.body ++ events rest := by
  rw [events, preorder_cons, List.filterMap_cons_none h, List.filterMap_append]
  rfl

theorem events_singleton {node : Node} (h : node.body = []) :
    events [node] = node.event?.toList := by
  rw [events, preorder_singleton h]
  cases hevent : node.event? with
  | none => exact List.filterMap_cons_none hevent
  | some e => exact List.filterMap_cons_some hevent

end Node

/-! ## Changes -/

namespace ReadState

/-- **A change of what a reader works on**, and the events in it. -/
inductive Change : ReadState → List Event → ReadState → Prop
  | take {s : ReadState} (hword : s.current.kind ≠ .load) : Change s [] s.next
  | declare (s : ReadState) (symbol : Symbol) :
      Change s [] { s with scope := s.scope.declared symbol }
  | bindings (s : ReadState) (blocks : List (List (String × ValueType))) :
      Change s [] { s with scope := { s.scope with blocks := blocks } }
  | save (s : ReadState) (name : String) :
      Change s [.save name] { s with scope := s.scope.recordBackup name }
  | restore {s : ReadState} (hword : s.current.kind = .load)
      (hname : s.next.current.kind = .identifier) :
      Change s [.restore s.next.current.lexeme]
        (if s.scope.hasBackup s.next.current.lexeme then s.next.next
          else { s.next.next with warnings := s.warnings ++
            [.restoreWithoutBackup s.next.current.lexeme s.next.current.span] })
  | useLibrary {s : ReadState} (hword : s.current.kind = .lib)
      (hname : s.next.current.kind = .libraryName) :
      Change s [.useLibrary (dropAtSigns s.next.current.lexeme) s.next.current.span]
        { s.next.next with imports := dropAtSigns s.next.current.lexeme :: s.imports }

/-- **The states that some changes lead to**, with the events on the way. -/
inductive Changes (s : ReadState) : List Event → ReadState → Prop
  | refl : Changes s [] s
  | tail {events more : List Event} {s₁ s' : ReadState} (h : Changes s events s₁)
      (hchange : Change s₁ more s') : Changes s (events ++ more) s'

variable {s s₁ s' : ReadState} {events more : List Event}

theorem Change.changes (h : s.Change events s') : s.Changes events s' := .tail .refl h

/-- Changes after changes are changes, and their events come one after the
other. -/
theorem Changes.trans (h : s.Changes events s₁) (h' : s₁.Changes more s') :
    s.Changes (events ++ more) s' := by
  induction h' with
  | refl =>
    rw [List.append_nil]
    exact h
  | tail _ hchange ih =>
    rw [← List.append_assoc]
    exact ih.tail hchange

/-- What is known may change if the tokens stay: that is one of the two
moves. -/
theorem leads_know (hpending : s'.pending = s.pending) (hfinal : s'.final = s.final)
    (htaken : s'.taken = s.taken) : s.Leads s' := .single (.know hpending hfinal htaken)

theorem leads_next (s : ReadState) : s.Leads s.next := .single (.take s)

/-- **Nothing that was known is lost**, the bindings apart, and no token is
put back. -/
structure Grows (s s' : ReadState) : Prop where
  leads : s.Leads s'
  symbols : s.scope.symbols <+: s'.scope.symbols
  backups : s.scope.backups <:+ s'.scope.backups
  imports : s.imports <:+ s'.imports
  warnings : s.warnings <+: s'.warnings

namespace Grows

theorem refl (s : ReadState) : s.Grows s :=
  ⟨.refl, List.prefix_rfl, List.suffix_rfl, List.suffix_rfl, List.prefix_rfl⟩

theorem trans (h : s.Grows s₁) (h' : s₁.Grows s') : s.Grows s' :=
  ⟨h.leads.trans h'.leads, h.symbols.trans h'.symbols, h.backups.trans h'.backups,
    h.imports.trans h'.imports, h.warnings.trans h'.warnings⟩

theorem next (s : ReadState) : s.Grows s.next := by
  refine ⟨s.leads_next, ?_, ?_, ?_, ?_⟩
  · rw [next_scope]
  · rw [next_scope]
  · rw [next_imports]
  · rw [next_warnings]

/-- The bindings may change in any way. They are the part of what is known
that a block takes back when it ends. -/
theorem withBlocks (s : ReadState) (blocks : List (List (String × ValueType))) :
    s.Grows { s with scope := { s.scope with blocks := blocks } } :=
  ⟨leads_know rfl rfl rfl, List.prefix_rfl, List.suffix_rfl, List.suffix_rfl, List.prefix_rfl⟩

end Grows

/-- One change loses nothing. By cases on the kind of change: each of them
adds to one of the lists, or is about tokens or bindings only. -/
theorem Change.grows (h : s.Change events s') : s.Grows s' := by
  cases h with
  | take => exact .next s
  | declare symbol =>
    exact ⟨leads_know rfl rfl rfl, List.prefix_append _ _, List.suffix_rfl, List.suffix_rfl,
      List.prefix_rfl⟩
  | bindings blocks => exact .withBlocks s blocks
  | save name =>
    exact ⟨leads_know rfl rfl rfl, List.prefix_rfl, List.suffix_cons _ _, List.suffix_rfl,
      List.prefix_rfl⟩
  | restore =>
    refine .trans (.trans (.next s) (.next _)) ?_
    split
    · exact .refl _
    · refine ⟨leads_know rfl rfl rfl, List.prefix_rfl, List.suffix_rfl, List.suffix_rfl, ?_⟩
      rw [next_warnings, next_warnings]
      exact List.prefix_append _ _
  | useLibrary =>
    refine .trans (.trans (.next s) (.next _)) ?_
    refine ⟨leads_know rfl rfl rfl, List.prefix_rfl, List.suffix_rfl, ?_, List.prefix_rfl⟩
    rw [next_imports, next_imports]
    exact List.suffix_cons _ _

/-- **Whatever changes were made, nothing is lost.** By induction on the
changes, with `Change.grows` for each of them. -/
theorem Changes.grows (h : s.Changes events s') : s.Grows s' := by
  induction h with
  | refl => exact .refl s
  | tail _ hchange ih => exact ih.trans hchange.grows

end ReadState

end MapleCompiler
