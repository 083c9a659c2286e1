import MapleCompiler.Program.Simple
import MapleCompiler.Token.Scan

/-!
# Statements with a body, and whole programs

A list of statements ends where its `Enclosure` says: the unit at the end mark,
the body of `run` at any word that closes a block, other bodies at the word that
closes them. `Read.statements` reads such a list; the readers of statements
with a body are given the reader of lists as an argument, so that all the
recursion is in this one definition.

Main definition: `Program.ofTokens`, which reads a unit and its warnings.
-/

namespace MapleCompiler

/-- **What is around a list of statements.** -/
inductive Enclosure
  /-- The whole unit; that of a library holds only some statements. -/
  | unit (library : Bool)
  /-- The body of `run`, which has no closing word of its own. -/
  | run
  /-- A body up to one of the `closers`; `onEof` is the fault of a text that
  ends before. -/
  | closedBy (closers : List TokenKind) (onEof : Fault)

/-- What a list of statements does at a token. -/
inductive Verdict
  /-- A statement begins. -/
  | goesOn
  /-- The list ends before the token. -/
  | ends
  /-- The token cannot stand here. -/
  | fails (error : CompileError)

/-- Whether a kind begins a statement at the top level of a library. -/
def TokenKind.startsLibraryStatement : TokenKind → Bool
  | .dec | .fnc | .lib | .init => true
  | _ => false

/-- Words that could close a block, in a message. -/
def Dialect.describeClosers (d : Dialect) (closers : List TokenKind) : String :=
  " or ".intercalate ((closers.filterMap d.spelling?).map fun word => "'" ++ word ++ "'")

/-- **Whether a list of statements goes on at a token.** -/
def Enclosure.verdict (d : Dialect) (t : Token) : Enclosure → Verdict
  | unit library =>
    if t.kind = .eof then .ends
    else if t.kind.isTerminator then .fails (.unexpected "a statement" t)
    else if library && !t.kind.startsLibraryStatement then
      .fails (.atToken (.libraryStatement t.lexeme) t)
    else .goesOn
  | run => if t.kind = .eof || t.kind.isTerminator then .ends else .goesOn
  | closedBy closers onEof =>
    if closers.contains t.kind then .ends
    else if t.kind = .eof then .fails (.atToken onEof t)
    else if t.kind.isTerminator then .fails (.unexpected (d.describeClosers closers) t)
    else .goesOn

/-- The place inside a block. -/
def Context.inner (ctx : Context) : Context := { ctx with depth := ctx.depth + 1 }

/-- The reader of a list of statements at a place, which readers of statements
with a body are given. -/
abbrev BodyReader : Type := Context → Enclosure → Read (List Node)

namespace Read

/-- `run COUNT BODY`: the rest of the list is the body. -/
def runStatement (body : BodyReader) (ctx : Context) : Read (List Node) := do
  let _ ← advance
  let count ← knownOperand "a repeat count"
  let nodes ← body ctx.inner .run
  return [.run count.lexeme nodes]

/-- The body of a condition, up to its end or to the next branch. -/
def branchBody (body : BodyReader) (ctx : Context) : Read (List Node) :=
  body ctx.inner (.closedBy [.endWord, .elifWord, .elseWord] (.unexpectedEof "'end'"))

/-- The branches after the first one, and the word that ends them. Every branch
takes a token, so a budget of one more than the tokens that are left is never
used up. -/
def branches (body : BodyReader) (ctx : Context) : Nat → Read (List Node)
  | 0 => unexpected "'end'"
  | budget + 1 => do
    match (← peek).kind with
    | .elifWord =>
      let _ ← advance
      let cond ← condition
      let nodes ← branchBody body ctx
      return .elseIf cond nodes :: (← branches body ctx budget)
    | .elseWord =>
      let _ ← advance
      let nodes ← body ctx.inner (.closedBy [.endWord] (.unexpectedEof "'end'"))
      return .otherwise nodes :: (← branches body ctx budget)
    | _ =>
      let _ ← expect .endWord "'end'"
      return [.endIf]

/-- `if CONDITION BODY {elif CONDITION BODY} [else BODY] end`. -/
def ifStatement (body : BodyReader) (ctx : Context) : Read (List Node) := do
  let _ ← advance
  let cond ← condition
  let nodes ← branchBody body ctx
  let rest ← branches body ctx ((← get).pending.length + 1)
  return .ifThen cond nodes :: rest

/-- The bounds of a loop: `START .. END`, or `END` to start from zero. -/
def bounds : Read (String × String) := do
  let first ← knownOperand "a loop bound"
  if ← accept .dotDot then
    let last ← knownOperand "a loop bound after '..'"
    return (first.lexeme, last.lexeme)
  else return ("0", first.lexeme)

/-- `loop NAME BOUNDS BODY roll`: the counter is bound in the body. -/
def loopStatement (body : BodyReader) (ctx : Context) : Read (List Node) := do
  let _ ← advance
  let counter ← identifier "a loop variable"
  let (start, stop) ← bounds
  modifyScope Scope.openBlock
  introduce counter (Scope.bindName counter.lexeme .i32)
  let nodes ← body ctx.inner (.closedBy [.roll] (.unexpectedEof "'roll'"))
  modifyScope Scope.closeBlock
  let _ ← advance
  return [.loop counter.lexeme start stop nodes, .endLoop]

/-- The type that a function returns. -/
def returnType : Read ValueType := do
  if ← sees .eof then unexpected "a return type"
  else
    let t ← advance
    match t.kind.valueType? with
    | some type => return type
    | none => failAt t (.invalidType t.lexeme)

/-- Fails because the head of the function `name` breaks off here. -/
def malformedHeader {α : Type} (name : Token) : Read α := do
  let t ← peek
  failAt t (.malformedFunctionHeader name.lexeme t.lexeme)

/-- A parameter, after the parameters `before`: a type and a new name. -/
def parameter (function : Token) (before : List (Token × ValueType)) :
    Read (Token × ValueType) := do
  if ← sees .eof then malformedHeader function
  else
    let type ← storableType
    let name ← identifier "a parameter name"
    if before.any (·.1.lexeme == name.lexeme) then failAt name (.redeclared name.lexeme)
    else return (name, type)

/-- Binds the parameters of a function in its body. -/
def bindParameters : List (Token × ValueType) → Read Unit
  | [] => pure ()
  | (name, type) :: rest => do
    introduce name (Scope.bindName name.lexeme type)
    bindParameters rest

/-- `fnc TYPE NAME : PARAMETERS : BODY end`. The function is declared before its
body, which may call it. -/
def functionStatement (body : BodyReader) (ctx : Context) : Read (List Node) := do
  let _ ← advance
  let type ← returnType
  let name ← identifier "a function name"
  if ctx.isTopLevel then
    if ← accept .colon then
      let parameters ← listUntil .colon "',' or ':'" (parameter name)
      let signature : Signature :=
        ⟨type, name.lexeme, parameters.map fun p => (p.1.lexeme, p.2)⟩
      introduce name (Scope.declare ⟨name.lexeme, type, .function parameters.length⟩)
      modifyScope Scope.openBlock
      bindParameters parameters
      let nodes ← body { ctx.inner with function? := some signature }
        (.closedBy [.endWord] (.malformedFunctionBody name.lexeme))
      modifyScope Scope.closeBlock
      let _ ← advance
      return [.function signature nodes]
    else malformedHeader name
  else failAt name (.nestedFunction name.lexeme)

/-- **One statement**, chosen by its first token; it gives one node or, for a
conditional or a loop, the nodes of its parts. -/
def statement (body : BodyReader) (ctx : Context) : Read (List Node) := do
  if ← seesCall then return [← callStatement]
  else
    match (← peek).kind with
    | .run => runStatement body ctx
    | .dec => return [← declaration]
    | .set => return [← assignment]
    | .out => return [← output]
    | .ifWord => ifStatement body ctx
    | .loop => loopStatement body ctx
    | .back => return [← save]
    | .load => return [← restore]
    | .fnc => functionStatement body ctx
    | .rtn => return [← giveBack ctx]
    | .arithmetic op => return [← calculation op]
    | .lib => return [← libraryImport ctx]
    | .init => return [← namespaceInit]
    | .qualifier => return [← qualifiedCall]
    | _ => unexpected "a statement"

/-- **The statements of a list**, up to the token that ends it. Every statement
takes a token and every body is read after one, so a budget of one more than
the tokens that are left is never used up. -/
def statements : Nat → BodyReader
  | 0, _, _ => unexpected "a statement"
  | budget + 1, ctx, enclosure => do
    match enclosure.verdict ctx.dialect (← peek) with
    | .ends => return []
    | .fails error => throw error
    | .goesOn =>
      let first ← statement (statements budget) ctx
      let rest ← statements budget ctx enclosure
      return first ++ rest

end Read

/-- **The program that a list of tokens holds**, with its warnings in the order
of the text. A library holds only declarations, functions and imports at its
top level. -/
def Program.ofTokens (d : Dialect) (library : Bool) (tokens : List Token) :
    Except CompileError (Program × List Warning) :=
  let start := ReadState.ofTokens tokens
  let ctx : Context := ⟨d, 0, none⟩
  match Read.statements (start.pending.length + 1) ctx (.unit library) start with
  | .ok nodes final => .ok (⟨nodes⟩, final.warnings)
  | .error e _ => .error e

/-- The program that a text holds, with its warnings. -/
def Program.ofText (d : Dialect) (library : Bool) (source : String) :
    Except CompileError (Program × List Warning) := do
  ofTokens d library (← Token.scan d source)

end MapleCompiler
