import MapleCompiler.Program.Block

/-!
# A parser with a state of its own

Readers are told where they stand. The dialect, the depth and the function around them are
arguments, and the state holds only the tokens that are left. A `Parser` keeps all of it:
it has the whole stream of tokens and a cursor in it, counts the blocks it is in, remembers
the function whose body it is in, and puts nodes behind those it is given. What it enters it
has to leave again: a block raises the depth and lowers it, a function is set and cleared.

Whatever reads no body is left to the readers, which work on what the parser sees
(`Parser.lift`). Main definition: `Parser.program`.
-/

namespace MapleCompiler

/-- **The stream that is read**: the tokens, with an end mark behind the last one unless
that is one. -/
def Token.terminated (tokens : List Token) : List Token :=
  match tokens.getLast? with
  | some t => if t.kind = .eof then tokens else tokens ++ [t.eofAfter]
  | none => [.eof .start]

/-- **The state of a parser.** -/
structure Parser where
  /-- The stream that is read. -/
  tokens : List Token
  /-- The index of the token that is looked at. -/
  cursor : Nat
  /-- The dialect of the text. -/
  dialect : Dialect
  /-- The names known here. -/
  scope : Scope
  /-- The libraries imported so far. -/
  imports : List String
  /-- How many blocks are open. -/
  depth : Nat
  /-- The function whose body is read. -/
  function? : Option Signature
  /-- Whether the unit is a library. -/
  library : Bool
  /-- The warnings so far. -/
  warnings : List Warning
deriving DecidableEq

/-- What a parser does to get an `α`. -/
abbrev Parse (α : Type) : Type := EStateM CompileError Parser α

/-- What reads a list of statements behind some nodes. -/
abbrev BodyParser : Type := Enclosure → List Node → Parse (List Node)

namespace Parser

/-- The parser before anything was read. -/
def ofTokens (d : Dialect) (library : Bool) (tokens : List Token) : Parser where
  tokens := Token.terminated tokens
  cursor := 0
  dialect := d
  scope := .empty
  imports := []
  depth := 0
  function? := none
  library := library
  warnings := []

/-- **What the parser sees**: the tokens from its cursor to the next end mark, and what it
knows. -/
def view (p : Parser) : ReadState where
  pending := (p.tokens.drop p.cursor).takeWhile (·.kind != .eof)
  final := ((p.tokens.drop p.cursor).find? (·.kind == .eof)).getD (.eof .start)
  taken := p.cursor
  scope := p.scope
  imports := p.imports
  warnings := p.warnings

/-- Where the parser stands. -/
def context (p : Parser) : Context := ⟨p.dialect, p.depth, p.function?⟩

/-- The parser after a reader came to a state. -/
def follow (p : Parser) (s : ReadState) : Parser :=
  { p with cursor := s.taken, scope := s.scope, imports := s.imports, warnings := s.warnings }

/-- **Lets a reader work on what the parser sees.** -/
def lift {α : Type} (x : Read α) : Parse α := fun p =>
  match x p.view with
  | .ok a s => .ok a (p.follow s)
  | .error e s => .error e (p.follow s)

/-- A statement without a body, behind some nodes. -/
def single (x : Read Node) (nodes : List Node) : Parse (List Node) := do
  return nodes ++ [← lift x]

/-- **A body**, one block deeper and with nodes of its own. -/
def block (body : BodyParser) (enclosure : Enclosure) : Parse (List Node) := do
  modify fun p => { p with depth := p.depth + 1 }
  let nodes ← body enclosure []
  modify fun p => { p with depth := p.depth - 1 }
  return nodes

/-- `run COUNT BODY`. -/
def runStatement (body : BodyParser) (nodes : List Node) : Parse (List Node) := do
  let _ ← lift Read.advance
  let count ← lift (Read.knownOperand "a repeat count")
  let inner ← block body .run
  return nodes ++ [.run count.lexeme inner]

/-- The body of a condition, up to its end or to the next branch. -/
def branchBody (body : BodyParser) : Parse (List Node) :=
  block body (.closedBy [.endWord, .elifWord, .elseWord] (.unexpectedEof "'end'"))

/-- The branches after the first one, and the word that ends them. -/
def branches (body : BodyParser) : Nat → List Node → Parse (List Node)
  | 0, _ => lift (Read.unexpected "'end'")
  | budget + 1, nodes => do
    match (← lift Read.peek).kind with
    | .elifWord =>
      let _ ← lift Read.advance
      let cond ← lift Read.condition
      let inner ← branchBody body
      branches body budget (nodes ++ [.elseIf cond inner])
    | .elseWord =>
      let _ ← lift Read.advance
      let inner ← block body (.closedBy [.endWord] (.unexpectedEof "'end'"))
      branches body budget (nodes ++ [.otherwise inner])
    | _ =>
      let _ ← lift (Read.expect .endWord "'end'")
      return nodes ++ [.endIf]

/-- `if CONDITION BODY {elif CONDITION BODY} [else BODY] end`. -/
def ifStatement (body : BodyParser) (nodes : List Node) : Parse (List Node) := do
  let _ ← lift Read.advance
  let cond ← lift Read.condition
  let inner ← branchBody body
  branches body ((← get).view.pending.length + 1) (nodes ++ [.ifThen cond inner])

/-- `loop NAME BOUNDS BODY roll`. -/
def loopStatement (body : BodyParser) (nodes : List Node) : Parse (List Node) := do
  let _ ← lift Read.advance
  let counter ← lift (Read.identifier "a loop variable")
  let bounds ← lift Read.bounds
  lift (Read.modifyScope Scope.openBlock)
  lift (Read.introduce counter (Scope.bindName counter.lexeme .i32))
  let inner ← block body (.closedBy [.roll] (.unexpectedEof "'roll'"))
  lift (Read.modifyScope Scope.closeBlock)
  let _ ← lift Read.advance
  return nodes ++ [.loop counter.lexeme bounds.1 bounds.2 inner, .endLoop]

/-- The body of a function, which is set before it and cleared after it. -/
def functionBody (body : BodyParser) (signature : Signature) : Parse (List Node) := do
  modify fun p => { p with function? := some signature }
  let inner ← block body (.closedBy [.endWord] (.malformedFunctionBody signature.name))
  modify fun p => { p with function? := none }
  return inner

/-- `fnc TYPE NAME : PARAMETERS : BODY end`. -/
def functionStatement (body : BodyParser) (nodes : List Node) : Parse (List Node) := do
  let _ ← lift Read.advance
  let type ← lift Read.returnType
  let name ← lift (Read.identifier "a function name")
  if (← get).context.isTopLevel then
    if ← lift (Read.accept .colon) then
      let parameters ← lift (Read.listUntil .colon "',' or ':'" (Read.parameter name))
      let signature : Signature :=
        ⟨type, name.lexeme, parameters.map fun p => (p.1.lexeme, p.2)⟩
      lift (Read.introduce name (Scope.declare ⟨name.lexeme, type, .function parameters.length⟩))
      lift (Read.modifyScope Scope.openBlock)
      lift (Read.bindParameters parameters)
      let inner ← functionBody body signature
      lift (Read.modifyScope Scope.closeBlock)
      let _ ← lift Read.advance
      return nodes ++ [.function signature inner]
    else lift (Read.malformedHeader name)
  else lift (Read.failAt name (.nestedFunction name.lexeme))

/-- **One statement**, chosen by its first token; its nodes come behind those before it. -/
def statement (body : BodyParser) (nodes : List Node) : Parse (List Node) := do
  if ← lift Read.seesCall then single Read.callStatement nodes
  else
    match (← lift Read.peek).kind with
    | .run => runStatement body nodes
    | .dec => single Read.declaration nodes
    | .set => single Read.assignment nodes
    | .out => single Read.output nodes
    | .ifWord => ifStatement body nodes
    | .loop => loopStatement body nodes
    | .back => single Read.save nodes
    | .load => single Read.restore nodes
    | .fnc => functionStatement body nodes
    | .rtn => do single (Read.giveBack (← get).context) nodes
    | .arithmetic op => single (Read.calculation op) nodes
    | .lib => do single (Read.libraryImport (← get).context) nodes
    | .init => single Read.namespaceInit nodes
    | .qualifier => single Read.qualifiedCall nodes
    | _ => lift (Read.unexpected "a statement")

/-- **The statements of a list**, up to the token that ends it. -/
def statements : Nat → BodyParser
  | 0, _, _ => lift (Read.unexpected "a statement")
  | budget + 1, enclosure, nodes => do
    match enclosure.verdict (← get).dialect (← lift Read.peek) with
    | .ends => return nodes
    | .fails error => throw error
    | .goesOn =>
      let nodes ← statement (statements budget) nodes
      statements budget enclosure nodes

/-- The nodes of a unit. -/
def parse : Parse (List Node) := do
  let p ← get
  statements (p.view.pending.length + 1) (.unit p.library) []

/-- **The program that a parser finds in a list of tokens**, with its warnings. -/
def program (d : Dialect) (library : Bool) (tokens : List Token) :
    Except CompileError (Program × List Warning) :=
  match parse (ofTokens d library tokens) with
  | .ok nodes p => .ok (⟨nodes⟩, p.warnings)
  | .error e _ => .error e

end Parser

end MapleCompiler
