import MapleCompiler.Scope.Rules

/-!
# Reading tokens

A program is read from its tokens by small readers. A reader looks at the
tokens still to be read, takes some of them, may change what is known about
names, and either gives a result or fails at a token. `Read` is the type of
readers: a failing reader keeps the state it failed in, so that one can say
how far it got.

The state splits the tokens at the first end mark. What stands after it is
never looked at, and the end mark itself is never taken, so a reader can look
at the current token at any time.
-/

namespace MapleCompiler

/-- **What a reader works on.** -/
structure ReadState where
  /-- The tokens to be read, up to the end mark. -/
  pending : List Token
  /-- The end mark. -/
  final : Token
  /-- How many tokens were taken. -/
  taken : Nat
  /-- The names known here. -/
  scope : Scope
  /-- The libraries imported so far. -/
  imports : List String
  /-- The warnings so far. -/
  warnings : List Warning

namespace ReadState

/-- The end mark of a list of tokens: the first one it holds, or one right
after its last token. -/
def endMark (tokens : List Token) : Token :=
  match tokens.find? (·.kind == .eof) with
  | some t => t
  | none =>
    match tokens.getLast? with
    | some t => t.eofAfter
    | none => .eof .start

/-- The state before anything was read. -/
def ofTokens (tokens : List Token) : ReadState where
  pending := tokens.takeWhile (·.kind != .eof)
  final := endMark tokens
  taken := 0
  scope := .empty
  imports := []
  warnings := []

/-- The token that is looked at. -/
def current (s : ReadState) : Token := s.pending.headD s.final

/-- Whether a call begins here: a name and a colon. -/
def startsCall (s : ReadState) : Bool :=
  match s.pending with
  | name :: mark :: _ => name.kind == .identifier && mark.kind == .colon
  | _ => false

end ReadState

/-- **A reader of an `α`.** -/
abbrev Read (α : Type) : Type := EStateM CompileError ReadState α

namespace Read

/-- The token that is looked at. -/
def peek : Read Token := return (← get).current

/-- Takes the token that is looked at; the end mark stays. -/
def advance : Read Token := do
  let s ← get
  match s.pending with
  | [] => return s.final
  | t :: rest =>
    set { s with pending := rest, taken := s.taken + 1 }
    return t

/-- Fails at a token. -/
def failAt {α : Type} (t : Token) (fault : Fault) : Read α := throw (.atToken fault t)

/-- Fails because something else should stand here. -/
def unexpected {α : Type} (expected : String) : Read α := do
  throw (.unexpected expected (← peek))

/-- Whether the token that is looked at has a kind. -/
def sees (kind : TokenKind) : Read Bool := return (← peek).kind == kind

/-- Takes a token of a kind if it stands here. -/
def accept (kind : TokenKind) : Read Bool := do
  if ← sees kind then
    let _ ← advance
    return true
  else return false

/-- Takes a token of a kind, which has to stand here. -/
def expect (kind : TokenKind) (expected : String) : Read Token := do
  if ← sees kind then advance else unexpected expected

/-- Takes a name. -/
def identifier (expected : String) : Read Token := expect .identifier expected

/-- Whether a call begins here. -/
def seesCall : Read Bool := return (← get).startsCall

/-- A rule of the scope, at this place. -/
def rule {α : Type} (check : Scope → Except CompileError α) : Read α := do
  match check (← get).scope with
  | .ok a => return a
  | .error e => throw e

/-- Changes what is known about names. -/
def modifyScope (f : Scope → Scope) : Read Unit :=
  modify fun s => { s with scope := f s.scope }

/-- Gives the name `t` a meaning with an operation on the scope, which refuses
names that have one. The scope is then what the operation left. -/
def introduce {ε : Type} (t : Token) (op : EStateM ε Scope Unit) : Read Unit := do
  match op (← get).scope with
  | .ok _ scope => modifyScope fun _ => scope
  | .error _ scope =>
    modifyScope fun _ => scope
    failAt t (.redeclared t.lexeme)

/-- The items of a list with commas up to its closing mark, which is taken; a
comma may stand before the mark. The reader of an item is told the items
before it. Every item takes a token, so a budget of one more than the tokens
that are left is never used up. -/
def listItems {α : Type} (close : TokenKind) (expected : String) (item : List α → Read α) :
    Nat → List α → Read (List α)
  | 0, _ => unexpected expected
  | budget + 1, items => do
    if ← accept close then return items
    else
      let next ← item items
      let separated ← accept .comma
      let closing ← sees close
      if separated || closing then listItems close expected item budget (items ++ [next])
      else unexpected expected

/-- A list with commas and a closing mark. -/
def listUntil {α : Type} (close : TokenKind) (expected : String) (item : List α → Read α) :
    Read (List α) := do
  listItems close expected item ((← get).pending.length + 1) []

end Read

end MapleCompiler
