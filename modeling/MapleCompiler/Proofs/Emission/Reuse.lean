import MapleCompiler.Cpp.Emitter
import MapleCompiler.Proofs.Scoping.Site

/-!
# An emitter can be used again

An emitter keeps a state from one program to the next: how deep the next line stands, the
names of the last program, what it has written. None of this shows in the code of the next
program. What was written is taken out, the names are replaced before the first line, and
the depth is what it was before, because every node leaves it as it found it.

The last point is the one to prove. `Emitter.Writes` says of an action that it writes some
lines, which may depend on the depth, and *changes nothing else*. Chains and blocks of such
actions are such actions again, so it holds of nodes of every form at every depth. The
lines are those of `Program.cpp`, and so an emitter writes what that definition says.

Main statement: `Emitter.emitAll_eq_fresh`.
-/

namespace MapleCompiler.Cpp

theorem render_append (lines rest : List Line) :
    render (lines ++ rest) = render lines ++ render rest := by
  unfold render
  rw [List.map_append, String.join_append]

namespace Emitter

/-- The emitter after some lines. -/
def wrote (e : Emitter) (lines : List Line) : Emitter :=
  { e with output := e.output ++ render lines }

/-- **An action that writes lines and changes nothing else.** The lines may
depend on the mode, the names and the depth. -/
def Writes (action : Emit Unit) (lines : Mode → Names → Nat → List Line) : Prop :=
  ∀ e, action.run e = ((), e.wrote (lines e.mode e.names e.indent))

/-! ## Actions -/

section Actions

variable {x y : Emit Unit} {ls ls' : Mode → Names → Nat → List Line}

theorem wrote_wrote (e : Emitter) (lines rest : List Line) :
    (e.wrote lines).wrote rest = e.wrote (lines ++ rest) := by
  unfold wrote
  rw [render_append, String.append_assoc]

theorem Writes.congr (h : Writes x ls) (hls : ∀ mode names depth, ls' mode names depth =
    ls mode names depth) : Writes x ls' :=
  fun e => by rw [hls, h e]

theorem writes_nothing : Writes (pure ()) fun _ _ _ => [] := by
  intro e
  have hnothing : e.wrote [] = e := by
    unfold wrote
    rw [show render [] = "" from rfl, String.append_empty]
  rw [hnothing]
  rfl

/-- **One action after the other** writes the lines of both, in this order. -/
theorem Writes.seq (hx : Writes x ls) (hy : Writes y ls') :
    Writes (x >>= fun _ => y) fun mode names depth =>
      ls mode names depth ++ ls' mode names depth := by
  intro e
  rw [StateT.run_bind, hx e]
  exact (hy _).trans (congrArg (Prod.mk ()) (wrote_wrote ..))

/-- An action that looks at the emitter first may use what it finds there, if
it then writes the lines. -/
theorem Writes.get {action : Emitter → Emit Unit}
    (h : ∀ e, (action e).run e = ((), e.wrote (ls e.mode e.names e.indent))) :
    Writes (MonadState.get >>= action) ls := h

theorem writes_writeLine (text : String) : Writes (writeLine text) fun _ _ depth =>
    [⟨depth, text⟩] := by
  intro e
  unfold wrote render
  rw [List.map_singleton, String.join_cons, String.join_nil, String.append_empty, Line.render,
    ← String.append_assoc, ← String.append_assoc]
  rfl

theorem writes_writeFlush (text : String) : Writes (writeFlush text) fun _ _ _ =>
    [.flush text] := by
  intro e
  unfold wrote render
  rw [List.map_singleton, String.join_cons, String.join_nil, String.append_empty, Line.render,
    ← String.append_assoc]
  rfl

/-- **A block stands one level deeper**, and the depth is what it was after
it. -/
theorem Writes.indented (h : Writes x ls) :
    Writes (indented x) fun mode names depth => ls mode names (depth + 1) := by
  intro e
  unfold Emitter.indented
  rw [StateT.run_bind]
  show (x >>= _).run { e with indent := e.indent + 1 } = _
  rw [StateT.run_bind, h]
  rfl

theorem writes_forM {α : Type} {action : α → Emit Unit}
    {lines : α → Mode → Names → Nat → List Line} (h : ∀ a, Writes (action a) (lines a))
    (items : List α) :
    Writes (items.forM action) fun mode names depth =>
      items.flatMap fun a => lines a mode names depth := by
  induction items with
  | nil => exact writes_nothing
  | cons a items ih => exact (h a).seq ih

theorem writes_emitParagraph {α : Type} {action : α → Emit Unit}
    {line : α → Mode → Names → Nat → Line}
    (h : ∀ a, Writes (action a) fun mode names depth => [line a mode names depth])
    (items : List α) :
    Writes (emitParagraph items action) fun mode names depth =>
      paragraph (items.map fun a => line a mode names depth) := by
  have hitems := writes_forM h items
  cases items with
  | nil => exact hitems.seq writes_nothing
  | cons a items =>
    refine (hitems.seq (writes_writeFlush "")).congr fun mode names depth => ?_
    rw [← List.map_eq_flatMap]
    rfl

end Actions

/-! ## Nodes -/

theorem writes_emitDeclaration (d : Declaration) : Writes (emitDeclaration d)
    fun _ names depth => [⟨depth, declaration names d⟩] :=
  .get fun e => writes_writeLine _ e

/-- A node is written with its lines, if its body is. By cases on the node, as
both the action and the lines are given. -/
theorem writes_emitNode_of_body (node : Node)
    (h : Writes (emitNodes node.body) fun _ names depth => bodyLines names depth node.body) :
    Writes (emitNode node) fun _ names depth => nodeLines names depth node := by
  cases node with
  | run count body => exact (writes_writeLine _).seq (h.indented.seq (writes_writeLine _))
  | declare d => exact writes_emitDeclaration d
  | ifThen c body => exact (writes_writeLine _).seq h.indented
  | elseIf c body => exact (writes_writeLine _).seq h.indented
  | otherwise body => exact (writes_writeLine _).seq h.indented
  | loop counter start stop body => exact (writes_writeLine _).seq h.indented
  | function s body => exact (writes_writeLine _).seq (h.indented.seq (writes_writeLine _))
  | giveBack value? => cases value? <;> exact writes_writeLine _
  | call c => exact .get fun e => writes_writeLine _ e
  | useLibrary _ _ => exact writes_nothing
  | openNamespace _ => exact writes_nothing
  | _ => exact writes_writeLine _

/-- **Nodes are written with their lines**, and leave the depth as it was. By
induction on the nodes and their bodies. -/
theorem writes_emitNodes (nodes : List Node) :
    Writes (emitNodes nodes) fun _ names depth => bodyLines names depth nodes := by
  induction nodes using Node.bodyInduction with
  | nil => exact writes_nothing
  | cons node rest ihbody ihrest => exact (writes_emitNode_of_body node ihbody).seq ihrest

theorem writes_emitNode (node : Node) :
    Writes (emitNode node) fun _ names depth => nodeLines names depth node :=
  writes_emitNode_of_body node (writes_emitNodes node.body)

/-! ## Programs -/

theorem writes_emitBanner : Writes emitBanner fun mode _ _ => bannerLines mode := by
  refine .get fun e => ?_
  have hlines := writes_forM (fun line : Line => writes_writeFlush line.text) (bannerLines e.mode) e
  rw [hlines]
  cases e.mode <;> rfl

theorem writes_emitFunction (f : Signature × List Node) : Writes (emitFunction f)
    fun _ names depth => nodeLines names depth (.function f.1 f.2) ++ [.blank] :=
  (writes_emitNode _).seq (writes_writeFlush "")

/-- The lines about a namespace. -/
def namespaceLine (text : String → String) (names : Names) : List Line :=
  match names.space? with
  | some space => [.flush (text space), .blank]
  | none => []

theorem writes_emitNamespaceLine (text : String → String) : Writes (emitNamespaceLine text)
    fun _ names _ => namespaceLine text names := by
  refine .get fun e => ?_
  unfold namespaceLine
  cases e.names.space? with
  | some space => exact (writes_writeFlush (text space)).seq (writes_writeFlush "") e
  | none => exact writes_nothing e

theorem writes_emitMain (statements : List Node) : Writes (emitMain statements)
    fun _ names depth => .flush "int main() \x7b" :: (bodyLines names (depth + 1) statements ++
      [⟨depth + 1, "return 0;"⟩, .flush "\x7d"]) := by
  refine ((writes_writeFlush _).seq
    (((writes_emitNodes statements).seq (writes_writeLine _)).indented.seq
      (writes_writeFlush _))).congr fun mode names depth => ?_
  simp

theorem Writes.onlyIn {x : Emit Unit} {ls : Mode → Names → Nat → List Line} (mode : Mode)
    (h : Writes x ls) :
    Writes (onlyIn mode x) fun mode' names depth =>
      if mode' = mode then ls mode' names depth else [] := by
  refine .get fun e => ?_
  split
  · exact h e
  · exact writes_nothing e

theorem declarations_filter_isStatement (nodes : List Node) :
    declarations (nodes.filter isStatement) = declarations nodes := by
  unfold declarations
  rw [List.filterMap_filter]
  refine List.filterMap_congr fun node _ => ?_
  cases node <;> rfl

theorem functionLines_eq (names : Names) (p : Program) : functionLines names p =
    p.functions.flatMap fun f => nodeLines names 0 (.function f.1 f.2) ++ [.blank] := rfl

theorem inNamespace_eq (names : Names) (lines : List Line) :
    inNamespace names.space? lines =
      namespaceLine (fun space => "namespace " ++ space ++ " \x7b") names ++ lines ++
        namespaceLine (fun space => "\x7d // namespace " ++ space) names := by
  unfold inNamespace namespaceLine
  cases names.space? with
  | none => simp
  | some space => rfl

/-- **The parts of a program are written with its lines**, if the emitter has
its names. -/
theorem run_emitParts (p : Program) (e : Emitter) (hindent : e.indent = 0)
    (hnames : e.names = Names.ofProgram p) :
    (emitParts p).run e = ((), e.wrote (programLines e.mode p)) := by
  have hparts : Writes (emitParts p) _ := writes_emitBanner.seq
    ((writes_emitParagraph (fun _ => writes_writeFlush _) p.imports).seq
      ((writes_emitNamespaceLine _).seq
        ((Writes.onlyIn .library (writes_emitParagraph writes_emitDeclaration
            (declarations (p.nodes.filter isStatement)))).seq
          ((writes_forM writes_emitFunction p.functions).seq
            ((writes_emitNamespaceLine _).seq
              (Writes.onlyIn .program (writes_emitMain (p.nodes.filter isStatement))))))))
  refine (hparts e).trans (congrArg (fun lines => ((), e.wrote lines)) ?_)
  rw [hindent, hnames, declarations_filter_isStatement, programLines, inNamespace_eq,
    functionLines_eq]
  cases e.mode with
  | library => simp [variableLines, mainLines, importLines, Line.flush]
  | program => simp [variableLines, mainLines, importLines]

/-- **An emitter between two programs**: it has written nothing of the next
one, and its next line stands outside of all blocks. Its names may be those of
any program. -/
structure Idle (mode : Mode) (e : Emitter) : Prop where
  mode_eq : e.mode = mode
  output_eq : e.output = ""
  indent_eq : e.indent = 0

theorem idle_new (mode : Mode) : (new mode).Idle mode := ⟨rfl, rfl, rfl⟩

/-- **A program is written as if by itself**, and leaves the emitter idle. The
names of the program before are replaced, and its text was given back. -/
theorem Idle.run_emit {mode : Mode} {e : Emitter} (h : e.Idle mode) (p : Program) :
    ∃ e', (emit p).run e = (p.cpp mode, e') ∧ e'.Idle mode := by
  obtain ⟨rfl, houtput, hindent⟩ := h
  have hparts := run_emitParts p { e with names := Names.ofProgram p } hindent rfl
  refine ⟨{ e with names := Names.ofProgram p, output := "" }, ?_, rfl, rfl, hindent⟩
  calc (emit p).run e
      = (emitParts p >>= fun _ => takeOutput).run { e with names := Names.ofProgram p } := rfl
    _ = (e.output ++ render (programLines e.mode p), _) := by
      rw [StateT.run_bind, hparts]
      rfl
    _ = _ := by
      rw [houtput, String.empty_append]
      rfl

/-- Programs that are written one after the other, by one emitter, are written
as if each had its own. By induction on the programs. -/
theorem Idle.run_emitAll {mode : Mode} {e : Emitter} (h : e.Idle mode) (programs : List Program) :
    ((emitAll programs).run e).1 = programs.map fun p => p.cpp mode := by
  unfold emitAll
  induction programs generalizing e with
  | nil => rfl
  | cons p programs ih =>
    obtain ⟨e', hrun, hidle⟩ := h.run_emit p
    rw [List.mapM_cons, StateT.run_bind, hrun, List.map_cons, ← ih hidle]
    rfl

/-- **An emitter can be used again.** It writes every program of a sequence as
a new emitter would, which is as `Program.cpp` says. -/
theorem emitAll_eq_fresh (mode : Mode) (programs : List Program) :
    ((emitAll programs).run (new mode)).1 = programs.map (fun p => ((emit p).run (new mode)).1) ∧
      ((emitAll programs).run (new mode)).1 = programs.map fun p => p.cpp mode := by
  have hall := (idle_new mode).run_emitAll programs
  refine ⟨hall.trans (List.map_congr_left fun p _ => ?_), hall⟩
  obtain ⟨e', hrun, -⟩ := (idle_new mode).run_emit p
  exact (congrArg Prod.fst hrun).symm

end Emitter

end MapleCompiler.Cpp
