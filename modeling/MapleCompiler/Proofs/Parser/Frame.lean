import MapleCompiler.Program.Equality
import MapleCompiler.Proofs.Parser.Safety
import MapleCompiler.Proofs.Scoping.Known

/-!
# The frame of a statement

A statement changes much of the parser on its way: it opens and closes blocks, enters a
function and leaves it, and goes through whole bodies of other statements. When it is done,
most of the parser is as it was, and the rest has only grown (`Parser.Frame`).

The parts of it come from different sides. What the parser itself keeps is back because it
does what a reader does, which has no such state (`Parser.follows_statement`). The bindings
are back because the nodes that were read are acceptable (`Accepts.blocks_eq`). A token was
taken because readers of statements get ahead (`Read.statement_moves`), and the rest has
grown because readers take nothing back (`ReadState.Changes.grows`).
-/

namespace MapleCompiler

namespace Read

variable {budget : Nat} {ctx : Context} {s s' : ReadState} {nodes : List Node}

/-- Lists of statements are sound with any budget: what they read is
acceptable. -/
theorem bodySound_statements (V : Vocabulary) (budget : Nat) : BodySound V (statements budget) := by
  intro ctx e s s' nodes h hs htaken
  obtain ⟨hover, htaken', hends, part, hfinal, haccepts⟩ := accepts_statements budget h hs
  rw [partOf, if_neg htaken] at haccepts
  exact ⟨hover, htaken' htaken, hends, part, hfinal, haccepts⟩

/-- The bindings after a statement are those from before. Its nodes are
acceptable, and acceptable nodes close the blocks that they open. -/
theorem blocks_of_statement (h : statement (statements budget) ctx s = .ok nodes s')
    (hfinal : s.final.kind = .eof) : s'.scope.blocks = s.scope.blocks := by
  have hs : s.Over .full := ⟨fun _ _ => trivial, hfinal⟩
  obtain hgives | ⟨hgives, -⟩ := gives_statement (bodySound_statements .full budget) h hs
  · exact hgives.accepts.blocks_eq
  · exact hgives.accepts.blocks_eq

end Read

namespace Parser

/-- **The frame of a statement.** Much of the parser is as it was before, and
what was known is still known. -/
structure Frame (p p' : Parser) : Prop where
  tokens : p'.tokens = p.tokens
  dialect : p'.dialect = p.dialect
  library : p'.library = p.library
  depth : p'.depth = p.depth
  function? : p'.function? = p.function?
  /-- All bindings made on the way are gone. -/
  blocks : p'.scope.blocks = p.scope.blocks
  /-- A token was taken at least. -/
  cursor : p.cursor < p'.cursor
  /-- A name that was declared means the same. -/
  entries : ∀ name symbol, p.scope.lookup? name = some symbol →
    p'.scope.lookup? name = some symbol
  declared : p.scope.symbols.map Symbol.name ⊆ p'.scope.symbols.map Symbol.name
  backups : p.scope.backups ⊆ p'.scope.backups
  imports : p.imports ⊆ p'.imports
  warnings : p.warnings <+: p'.warnings

variable {p p' : Parser} {nodes nodes' : List Node}

/-- **A statement that is read keeps the frame**, from any state of the parser
and with any nodes before it. Its nodes come behind those. -/
theorem statement_frame {budget : Nat}
    (h : statement (statements budget) nodes p = .ok nodes' p') :
    nodes <+: nodes' ∧ p.Frame p' := by
  obtain ⟨new, s, hread, hgrows, rfl, rfl⟩ :=
    (follows_statement (follows_statements budget) nodes p).exists_ok h
  refine ⟨List.prefix_append nodes new, ?_⟩
  exact
    { tokens := rfl
      dialect := rfl
      library := rfl
      depth := rfl
      function? := rfl
      blocks := Read.blocks_of_statement hread p.proper_view.final
      cursor := (Read.statement_moves p.proper_view budget p.context).2 new s hread
      entries := fun _ _ => hgrows.symbols.find?_eq_some
      declared := List.map_subset _ hgrows.symbols.subset
      backups := hgrows.backups.subset
      imports := hgrows.imports.subset
      warnings := hgrows.warnings }

/-- A parser before `fnc i32 f : i32 a : loop i a load x back x roll rtn a
end`, with a variable, a binding and a warning from before. -/
def beforeFunction : Parser where
  tokens :=
    [⟨.load, "load", ⟨0, 1, 1⟩⟩, ⟨.identifier, "x", ⟨5, 1, 6⟩⟩, ⟨.fnc, "fnc", ⟨7, 2, 1⟩⟩,
      ⟨.type .i32, "i32", ⟨11, 2, 5⟩⟩, ⟨.identifier, "f", ⟨15, 2, 9⟩⟩, ⟨.colon, ":", ⟨17, 2, 11⟩⟩,
      ⟨.type .i32, "i32", ⟨19, 2, 13⟩⟩, ⟨.identifier, "a", ⟨23, 2, 17⟩⟩,
      ⟨.colon, ":", ⟨25, 2, 19⟩⟩, ⟨.loop, "loop", ⟨27, 3, 1⟩⟩, ⟨.identifier, "i", ⟨32, 3, 6⟩⟩,
      ⟨.identifier, "a", ⟨34, 3, 8⟩⟩, ⟨.load, "load", ⟨36, 4, 1⟩⟩,
      ⟨.identifier, "x", ⟨41, 4, 6⟩⟩, ⟨.back, "back", ⟨43, 5, 1⟩⟩,
      ⟨.identifier, "x", ⟨48, 5, 6⟩⟩, ⟨.roll, "roll", ⟨50, 6, 1⟩⟩, ⟨.rtn, "rtn", ⟨55, 7, 1⟩⟩,
      ⟨.identifier, "a", ⟨59, 7, 5⟩⟩, ⟨.endWord, "end", ⟨61, 8, 1⟩⟩, .eof ⟨64, 8, 4⟩]
  cursor := 2
  dialect := .maple
  scope := ⟨[⟨"x", .i32, .scalar false⟩], [[("k", .bool)]], []⟩
  imports := ["m"]
  depth := 0
  function? := none
  library := true
  warnings := [.restoreWithoutBackup "x" ⟨5, 1, 1, 6⟩]

/-- A function with a loop in its body opens two blocks and leaves none open.
It adds its own name, a backup and a warning. -/
theorem statement_frame_function :
    ∃ p', statement (statements 21) [.restore "x"] beforeFunction =
        .ok [.restore "x", .function ⟨.i32, "f", [("a", .i32)]⟩
          [.loop "i" "0" "a" [.restore "x", .save "x"], .endLoop, .giveBack (some "a")]] p' ∧
      p'.scope.symbols.map Symbol.name = ["x", "f"] ∧ p'.scope.backups = ["x"] ∧
      p'.warnings.length = 2 ∧ beforeFunction.Frame p' := by
  have hread : outcome (statement (statements 21) [.restore "x"]) beforeFunction =
      .ok ([.restore "x", .function ⟨.i32, "f", [("a", .i32)]⟩
        [.loop "i" "0" "a" [.restore "x", .save "x"], .endLoop, .giveBack (some "a")]],
        { beforeFunction with
          cursor := 20
          scope := ⟨[⟨"x", .i32, .scalar false⟩, ⟨"f", .i32, .function 1⟩], [[("k", .bool)]], ["x"]⟩
          warnings := [.restoreWithoutBackup "x" ⟨5, 1, 1, 6⟩,
            .restoreWithoutBackup "x" ⟨41, 1, 4, 6⟩] }) := by
    decide +kernel
  have hread := eq_ok_of_outcome hread
  exact ⟨_, hread, rfl, rfl, rfl, (statement_frame hread).2⟩

end Parser

end MapleCompiler
