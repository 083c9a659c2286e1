import MapleCompiler.Program.Block
import MapleCompiler.Proofs.Scope.Rules

/-!
# Acceptable programs

Readers decide whether a list of tokens is a program. This module says which
programs are acceptable *without* reading: `Accepts` is a judgement on lists of
nodes. It has two rules, for the empty list and for a node before a list, and
takes what it says about a node from a few functions of it:

* `Node.Checked` is what the node needs where it stands: its words exist, its
  names have meanings, its values have types;
* `Facts.enter` and `Facts.leave` are what becomes known by it, before and
  after its body;
* `Part.after?` is which nodes may follow: branches after a condition, the
  closing word after a loop, nothing after `run`.

The words come from a `Vocabulary`, a set of kinds with lexemes. It can be
that of a dialect, or that of the tokens of one text.
-/

namespace MapleCompiler

/-! ## Words -/

/-- **The words that may be used**, each with its kind. A loop without a start
counts from `0`, which is therefore always among them. -/
structure Vocabulary where
  word : TokenKind → String → Prop
  zero : word .number "0"

namespace Vocabulary

/-- All words, of every kind. -/
def full : Vocabulary := ⟨fun _ _ => True, trivial⟩

variable (V : Vocabulary)

/-- There is a word of a kind. -/
def Has (kind : TokenKind) : Prop := ∃ x, V.word kind x

/-- A text that can be an operand. -/
def Operand (x : String) : Prop := ∃ kind, kind.isOperand = true ∧ V.word kind x

/-- An operand that has a meaning if it is a name. -/
def Known (s : Scope) (x : String) : Prop :=
  ∃ kind, kind.isOperand = true ∧ V.word kind x ∧ (kind = .identifier → s.isDefined x = true)

/-- An operand that selects an element of an array. -/
def Index (s : Scope) (shape : ArrayShape) (x : String) : Prop :=
  ∃ kind, kind.isOperand = true ∧ V.word kind x ∧ s.Selects shape kind x

/-- An operand that can be stored in a variable of a type. -/
def Value (s : Scope) (type : ValueType) (x : String) : Prop := V.Operand x ∧ s.Stores type x

/-- A word that names the library `name` after its `@` sign. -/
def Library (name : String) : Prop := ∃ x, V.word .libraryName x ∧ dropAtSigns x = name

/-- The default start of a loop is known everywhere: it is a literal of every
vocabulary. -/
theorem known_zero (s : Scope) : V.Known s "0" := ⟨.number, rfl, V.zero, nofun⟩

end Vocabulary

/-! ## What is known at a place -/

/-- A warning without its place. -/
def Warning.unplaced (w : Warning) : String × String := (w.code, w.message)

/-- **What is known at a place of a program**: the names, the imported
libraries, and the warnings up to there without their places. -/
structure Facts where
  scope : Scope
  imports : List String
  warnings : List (String × String)

namespace Facts

/-- What is known before a unit. -/
def initial : Facts := ⟨.empty, [], []⟩

/-- **What becomes known by a node**, before its body. -/
def enter (F : Facts) : Node → Facts
  | .declare d => { F with scope := F.scope.declared d.symbol }
  | .loop counter _ _ _ => { F with scope := F.scope.inBlock [(counter, .i32)] }
  | .save name => { F with scope := F.scope.recordBackup name }
  | .restore name =>
    if F.scope.hasBackup name then F
    else { F with warnings :=
      F.warnings ++ [(Warning.restoreWithoutBackup name ⟨0, 0, 0, 0⟩).unplaced] }
  | .function s _ =>
    { F with scope := (F.scope.declared s.symbol).inBlock s.parameters.reverse }
  | .useLibrary name _ => { F with imports := name :: F.imports }
  | _ => F

/-- What is known after a node, when `F` is known after its body: the bindings
of a loop or function are gone. -/
def leave (F : Facts) : Node → Facts
  | .loop _ _ _ _ => { F with scope := F.scope.closeBlock }
  | .function _ _ => { F with scope := F.scope.closeBlock }
  | _ => F

end Facts

/-! ## Nodes -/

/-- The body of a node. -/
def Node.body : Node → List Node
  | .run _ body => body
  | .ifThen _ body => body
  | .elseIf _ body => body
  | .otherwise body => body
  | .loop _ _ _ body => body
  | .function _ body => body
  | _ => []

/-- The place of the body of a node. -/
def Context.enter (ctx : Context) : Node → Context
  | .function s _ => { ctx.inner with function? := some s }
  | _ => ctx.inner

/-- **What may stand next** in a list of nodes. -/
inductive Part
  /-- The first statement of a unit, which may open its namespace. -/
  | start
  /-- A statement. -/
  | list
  /-- A further branch of a conditional, or its end. -/
  | branches
  /-- The end of a conditional. -/
  | closing
  /-- The end of a loop. -/
  | rolling
  /-- Nothing. -/
  | last
deriving DecidableEq

namespace Part

/-- Whether a list of nodes may stop here. -/
def isFinal : Part → Bool
  | start | list | last => true
  | _ => false

/-- What a statement leaves to follow. -/
def afterStatement? : Node → Option Part
  | .run _ _ => some last
  | .ifThen _ _ => some branches
  | .loop _ _ _ _ => some rolling
  | .elseIf _ _ | .otherwise _ | .endIf | .endLoop | .openNamespace _ => none
  | _ => some list

/-- **What follows a node**, if it may stand here. -/
def after? : Part → Node → Option Part
  | start, .openNamespace _ => some list
  | start, node => afterStatement? node
  | list, node => afterStatement? node
  | branches, .elseIf _ _ => some branches
  | branches, .otherwise _ => some closing
  | branches, .endIf => some list
  | closing, .endIf => some list
  | rolling, .endLoop => some list
  | _, _ => none

/-- A unit may begin with any statement. Beside these it may begin with its
namespace. -/
theorem after?_start {node : Node} {part : Part} (h : list.after? node = some part) :
    start.after? node = some part := by
  cases node <;> first | exact h | cases h

/-- Where a list may stop, what follows a statement depends on it alone, and
not on what came before it. -/
theorem eq_of_after? {part next next' : Part} {node : Node} (hpart : part.isFinal = true)
    (hnode : afterStatement? node = some next') (h : part.after? node = some next) :
    next = next' := by
  cases part with
  | start => cases node <;> first | cases hnode; done | exact Option.some.inj (h.symm.trans hnode)
  | list => exact Option.some.inj (h.symm.trans hnode)
  | last => cases node <;> cases h
  | branches => cases hpart
  | closing => cases hpart
  | rolling => cases hpart

end Part

/-! ## The judgement -/

namespace Node

variable (V : Vocabulary)

/-- What a condition needs. -/
def ConditionChecked (s : Scope) (c : Condition) : Prop :=
  V.Known s c.left ∧ V.Has (.comparison c.op) ∧ V.Known s c.right

/-- What a call needs, whatever it calls. -/
def CallChecked (s : Scope) (c : Call) : Prop :=
  V.word .identifier c.function ∧ ∀ x ∈ c.arguments, V.Known s x

/-- What a variable of a type can start with. -/
def Initializes (s : Scope) (type : ValueType) : Initializer → Prop
  | .value x => V.Value s type x
  | .call c => CallChecked V s c ∧ s.Supplies c.function type ∧ s.Matches c
  | .array size values =>
    0 < size ∧ size < Literal.indexBound ∧ values.length ≤ size ∧
      ∀ x ∈ values, (∃ kind, kind.isLiteral = true ∧ V.word kind x) ∧ s.Stores type x

/-- What can be assigned to a place of a type. -/
def Assigns (s : Scope) (type : ValueType) : AssignedValue → Prop
  | .plain x => V.Value s type x
  | .element array x =>
    V.Operand array ∧ V.word .identifier x ∧ s.isDefined x = true ∧
      ∃ shape, s.IsArray array type shape
  | .copied array i literal =>
    V.Operand array ∧ i < Literal.indexBound ∧
      ∃ shape, s.IsArray array type shape ∧ i < shape.size ∧ shape.values[i]? = some literal

/-- Where an assignment can go. -/
def Assignable (s : Scope) (type : ValueType) (name : String) : Option String → Prop
  | none => s.Targets name none type
  | some x => ∃ kind, kind.isOperand = true ∧ V.word kind x ∧ s.Targets name (some (kind, x)) type

/-- What can be printed. -/
def Printable (s : Scope) (name : String) : Option String → Prop
  | none => True
  | some x => ∃ type shape, s.IsArray name type shape ∧ V.Index s shape x

/-- Where the result of a calculation can go. -/
def Stored (s : Scope) (c : Calculation) : Prop :=
  match c.destination? with
  | some name => V.Has .into ∧ V.word .identifier name ∧ s.Receives c.op name
  | none => V.word .identifier c.left ∧ s.Receives c.op c.left

/-- What the parameters of a function need: types that can be stored, and
names that are new and all different. -/
def ParametersChecked (s : Scope) (parameters : List (String × ValueType)) : Prop :=
  (∀ p ∈ parameters, V.word .identifier p.1 ∧ V.Has (.type p.2) ∧ p.2.isStorable = true ∧
    s.isDefined p.1 = false) ∧ (parameters.map Prod.fst).Nodup

/-- **What a node needs where it stands**, its body aside. -/
def Checked (ctx : Context) (F : Facts) : Node → Prop
  | .run count _ => V.Known F.scope count
  | .declare d =>
    V.Has (.type d.type) ∧ d.type.isStorable = true ∧ V.word .identifier d.name ∧
      F.scope.isDefined d.name = false ∧ Initializes V F.scope d.type d.initializer
  | .assign a =>
    V.word .identifier a.target ∧
      ∃ type, Assignable V F.scope type a.target a.index? ∧ Assigns V F.scope type a.value
  | .output name index? => V.Known F.scope name ∧ Printable V F.scope name index?
  | .ifThen c _ => ConditionChecked V F.scope c
  | .elseIf c _ => V.Has .elifWord ∧ ConditionChecked V F.scope c
  | .otherwise _ => V.Has .elseWord
  | .endIf => True
  | .loop counter start stop _ =>
    V.word .identifier counter ∧ F.scope.isDefined counter = false ∧ V.Known F.scope start ∧
      V.Known F.scope stop
  | .endLoop => True
  | .save name => V.word .identifier name ∧ ∃ m, F.scope.Saves name m
  | .restore name => V.word .identifier name ∧ ∃ m, F.scope.Saves name m ∧ m.isChangeable = true
  | .function s _ =>
    ctx.isTopLevel = true ∧ V.Has (.type s.returnType) ∧ V.word .identifier s.name ∧
      F.scope.isDefined s.name = false ∧
      ParametersChecked V (F.scope.declared s.symbol) s.parameters
  | .giveBack value? =>
    (∀ x, value? = some x → V.Operand x) ∧
      ∃ signature, ctx.function? = some signature ∧ F.scope.Returns signature.returnType value?
  | .call c => CallChecked V F.scope c ∧ F.scope.Matches c
  | .calculate c =>
    V.Has (.arithmetic c.op) ∧ V.Known F.scope c.left ∧ V.Known F.scope c.right ∧
      Stored V F.scope c
  | .useLibrary name _ =>
    ctx.isTopLevel = true ∧ V.Has .lib ∧ V.Library name ∧ name ∉ F.imports
  | .openNamespace name => V.Has .init ∧ V.Library name
  | .qualifiedCall library c =>
    library ∈ F.imports ∧ (∃ x, V.word .qualifier x ∧ qualifiedLibrary x = library) ∧
      CallChecked V F.scope c

end Node

/-- **The nodes of a list are acceptable.** They stand in the context `ctx`,
where `part` may come and `F` is known; after them `part'` may come and `F'`
is known. -/
inductive Accepts (V : Vocabulary) : Context → Part → Facts → List Node → Part → Facts → Prop
  | nil {ctx : Context} {part : Part} {F : Facts} : Accepts V ctx part F [] part F
  | cons {ctx : Context} {part next inside part' : Part} {F G F' : Facts} {node : Node}
      {rest : List Node} (hpart : part.after? node = some next)
      (hnode : node.Checked V ctx F)
      (hbody : Accepts V (ctx.enter node) .list (F.enter node) node.body inside G)
      (hinside : inside.isFinal = true)
      (hrest : Accepts V ctx next (G.leave node) rest part' F') :
      Accepts V ctx part F (node :: rest) part' F'

namespace Accepts

variable {V : Vocabulary} {ctx : Context} {part part₁ part' : Part} {F F₁ F' : Facts}

/-- Two lists, one after the other: the second is judged where the first one
stops, with what is known there. -/
theorem append {nodes rest : List Node} (h : Accepts V ctx part F nodes part₁ F₁)
    (hrest : Accepts V ctx part₁ F₁ rest part' F') :
    Accepts V ctx part F (nodes ++ rest) part' F' := by
  induction h with
  | nil => exact hrest
  | cons hpart hnode hbody hinside _ _ ih => exact .cons hpart hnode hbody hinside (ih hrest)

theorem plain {node : Node} (hpart : part.after? node = some part') (hbody : node.body = [])
    (hnode : node.Checked V ctx F) :
    Accepts V ctx part F [node] part' ((F.enter node).leave node) := by
  have hempty : Accepts V (ctx.enter node) .list (F.enter node) node.body .list (F.enter node) := by
    rw [hbody]
    exact .nil
  exact .cons hpart hnode hempty rfl .nil

/-- Statements at the beginning of a unit. The first of them takes the place
of a namespace. -/
theorem ofList {nodes : List Node} (h : Accepts V ctx .list F nodes part' F') (hne : nodes ≠ []) :
    Accepts V ctx .start F nodes part' F' := by
  cases h with
  | nil => exact absurd rfl hne
  | cons hpart hnode hbody hinside hrest =>
    exact .cons (Part.after?_start hpart) hnode hbody hinside hrest

end Accepts

/-- Whether a node may stand at the top level of a library. -/
def Node.isLibraryPart : Node → Bool
  | .declare _ | .function _ _ | .useLibrary _ _ | .openNamespace _ => true
  | _ => false

/-- **An acceptable unit**, with the warnings it gives. -/
def Program.Accepted (V : Vocabulary) (d : Dialect) (library : Bool) (p : Program)
    (warnings : List (String × String)) : Prop :=
  (library = true → ∀ node ∈ p.nodes, node.isLibraryPart = true) ∧
    ∃ part F, part.isFinal = true ∧ F.warnings = warnings ∧
      Accepts V ⟨d, 0, none⟩ .start .initial p.nodes part F

end MapleCompiler
