import MapleCompiler.Host.Script.Arithmetic
import MapleCompiler.Host.Script.Pattern

/-!
# Regular expressions

A `Regex` describes stretches of text. `Regex.ends` gives all the ways in which
an expression matches from a place on, those that take more first, and
`Regex.search` the first place where it matches and the longest stretch there.

`Regex.ofText` reads an expression in one of two notations, which differ in
whether the marks for groups, alternatives and counts stand by themselves or
after a backslash.
-/

namespace MapleCompiler.Script

/-- **A regular expression.** -/
inductive Regex
  | empty
  | one (test : Char → Bool)
  | place (test : Option Char → Option Char → Bool)
  | both (first second : Regex)
  | either (first second : Regex)
  | repeated (body : Regex) (least : Nat) (most? : Option Nat)
  /-- A group, whose stretch is remembered by its number. -/
  | group (number : Nat) (body : Regex)
  /-- The stretch of a group once more. -/
  | again (number : Nat)

/-- How far a match has come. -/
structure Cursor where
  /-- How many characters lie before. -/
  offset : Nat
  before? : Option Char
  rest : List Char
  groups : List (Nat × Nat × List Char)

namespace Regex

/-- Repeats a step from a cursor on, of which `done` turns are done. A turn that
takes nothing is not repeated. -/
def iterate (step : Cursor → List Cursor) (least : Nat) (most? : Option Nat) :
    Nat → Nat → Cursor → List Cursor
  | 0, done, cursor => if least ≤ done then [cursor] else []
  | budget + 1, done, cursor =>
    let more := if most?.any (· ≤ done) then [] else
      (step cursor).flatMap fun next =>
        if next.offset = cursor.offset ∧ least ≤ done then []
        else iterate step least most? budget (done + 1) next
    if least ≤ done then more ++ [cursor] else more

/-- **The ways an expression matches from a cursor on**, best ones first. Where
`folds` holds, the case of letters does not count. -/
def ends (folds : Bool) : Regex → Cursor → List Cursor
  | empty, cursor => [cursor]
  | one test, cursor =>
    match cursor.rest with
    | [] => []
    | c :: rest =>
      if test c || folds && (test c.toLower || test c.toUpper) then
        [{ cursor with offset := cursor.offset + 1, before? := some c, rest }]
      else []
  | place test, cursor => if test cursor.before? cursor.rest.head? then [cursor] else []
  | both first second, cursor => (ends folds first cursor).flatMap (ends folds second)
  | either first second, cursor => ends folds first cursor ++ ends folds second cursor
  | repeated body least most?, cursor =>
    iterate (ends folds body) least most? (cursor.rest.length + least + 1) 0 cursor
  | group number body, cursor =>
    (ends folds body cursor).map fun next =>
      let taken := cursor.rest.take (next.offset - cursor.offset)
      { next with
        groups := (number, cursor.offset, taken) :: next.groups.filter (·.1 != number) }
  | again number, cursor =>
    match cursor.groups.lookup number with
    | none => []
    | some (_, taken) =>
      let front := cursor.rest.take taken.length
      let same := if folds then front.map Char.toLower == taken.map Char.toLower
        else front == taken
      if same then
        [{ cursor with
          offset := cursor.offset + taken.length
          before? := if taken = [] then cursor.before? else taken.getLast?
          rest := cursor.rest.drop taken.length }]
      else []

def furthest? : List Cursor → Option Cursor
  | [] => none
  | cursor :: rest =>
    match furthest? rest with
    | some other => if cursor.offset < other.offset then some other else some cursor
    | none => some cursor

/-- A stretch that an expression matches. -/
structure Match where
  /-- How many characters lie before it. -/
  start : Nat
  taken : List Char
  /-- What lies behind it. -/
  rest : List Char
  groups : List (Nat × Nat × List Char)

def Match.group (m : Match) (number : Nat) : List Char :=
  if number = 0 then m.taken else ((m.groups.lookup number).map (·.2)).getD []

def matchAt? (r : Regex) (folds : Bool) (offset : Nat) (before? : Option Char)
    (rest : List Char) : Option Match :=
  (furthest? (r.ends folds ⟨offset, before?, rest, []⟩)).map fun cursor =>
    ⟨offset, rest.take (cursor.offset - offset), cursor.rest, cursor.groups⟩

/-- **The first match in a text** from a place on. -/
def search (r : Regex) (folds : Bool) : Nat → Option Char → List Char → Option Match
  | offset, before?, [] => r.matchAt? folds offset before? []
  | offset, before?, c :: rest =>
    match r.matchAt? folds offset before? (c :: rest) with
    | some m => some m
    | none => search r folds (offset + 1) (some c) rest

def occurs (r : Regex) (folds : Bool) (text : String) : Bool :=
  (r.search folds 0 none text.toList).isSome

/-! ## Notation -/

def isWord (c : Char) : Bool := c == '_' || c.isAlphanum

def lineStart : Regex := place fun before? _ => before? == none

def lineEnd : Regex := place fun _ behind? => behind? == none

def wordEdge (before? behind? : Option Char) : Bool := before?.any isWord != behind?.any isWord

/-- What a letter after a backslash stands for in both notations. -/
def shorthand? (c : Char) : Option Regex :=
  match c with
  | 'w' => some (one isWord)
  | 'W' => some (one (!isWord ·))
  | 's' => some (one isBlank)
  | 'S' => some (one (!isBlank ·))
  | 'b' => some (place wordEdge)
  | 'B' => some (place fun before? behind? => !wordEdge before? behind?)
  | '<' => some (place fun before? behind? => wordEdge before? behind? && behind?.any isWord)
  | '>' => some (place fun before? behind? => wordEdge before? behind? && before?.any isWord)
  | '\x60' => some lineStart
  | '\'' => some lineEnd
  | _ => none

/-- The set of characters behind a bracket, and how many characters it takes. -/
def set? (cs : List Char) : Option ((Char → Bool) × Nat) :=
  let negated := cs.head? = some '^'
  let skipped := if negated then 1 else 0
  (members (cs.length + 1) true skipped (cs.drop skipped) fun _ => false).map fun (test, taken) =>
    (if negated then fun x => !test x else test, taken)

/-- The bounds of a count up to its brace, and the text behind it. -/
def bounds? (close : List Char) (cs : List Char) : Option (Nat × Option Nat × List Char) :=
  let low := cs.takeWhile Char.isDigit
  let rest := cs.drop low.length
  let least := digitsValue 10 low
  match rest with
  | ',' :: rest =>
    let high := rest.takeWhile Char.isDigit
    let behind := rest.drop high.length
    if close.isPrefixOf behind then
      some (least, if high = [] then none else some (digitsValue 10 high),
        behind.drop close.length)
    else none
  | _ =>
    if low ≠ [] ∧ close.isPrefixOf rest then some (least, some least, rest.drop close.length)
    else none

/-- What reading an expression has come to. -/
structure Notation where
  rest : List Char
  /-- How many groups were opened. -/
  opened : Nat
  /-- How many groups are open. -/
  depth : Nat
  /-- Whether a star or a brace right behind a count is refused. -/
  strict : Bool

/-- A step of reading an expression. A failure says what is wrong. -/
abbrev Reading (α : Type) : Type := EStateM String Notation α

/-- The marks of an extended notation stand by themselves, those of the other
one after a backslash. -/
def sign? (extended : Bool) (signs : List Char) (cs : List Char) : Option (Char × List Char) :=
  match extended, cs with
  | true, c :: rest => if signs.contains c then some (c, rest) else none
  | false, '\\' :: c :: rest => if signs.contains c then some (c, rest) else none
  | _, _ => none

/-- Whether an expression, or an alternative of it, ends before a text. -/
def endsHere (extended : Bool) (depth : Nat) (cs : List Char) : Bool :=
  cs.isEmpty || (sign? extended ['|'] cs).isSome ||
    depth > 0 && (sign? extended [')'] cs).isSome

mutual

def alternatives (extended : Bool) : Nat → Reading Regex
  | 0 => throw "Regular expression too big"
  | budget + 1 => do
    let first ← sequence extended budget true empty
    let s ← get
    match sign? extended ['|'] s.rest with
    | some (_, rest) =>
      set { s with rest }
      return either first (← alternatives extended budget)
    | none => return first

/-- Pieces one after another, behind those in `before`. -/
def sequence (extended : Bool) : Nat → Bool → Regex → Reading Regex
  | 0, _, _ => throw "Regular expression too big"
  | budget + 1, first, before => do
    let s ← get
    if endsHere extended s.depth s.rest then return before
    else
      let (piece, isAnchor) ← atom extended budget first
      let piece ← if isAnchor && !extended then pure piece else counts extended budget piece
      sequence extended budget isAnchor (both before piece)

def counts (extended : Bool) : Nat → Regex → Reading Regex
  | 0, _ => throw "Regular expression too big"
  | budget + 1, piece => do
    let s ← get
    let brace : Char := '\x7b'
    match s.rest with
    | '*' :: rest =>
      set { s with rest }
      counted extended budget (repeated piece 0 none)
    | _ =>
      match sign? extended ['+', '?', brace] s.rest with
      | some ('+', rest) =>
        set { s with rest }
        counted extended budget (repeated piece 1 none)
      | some ('?', rest) =>
        set { s with rest }
        counted extended budget (repeated piece 0 (some 1))
      | some (_, rest) =>
        match bounds? (if extended then ['\x7d'] else ['\\', '\x7d']) rest with
        | some (least, most?, rest) =>
          if most?.any (· < least) then throw "Invalid content of \\\x7b\\\x7d"
          set { s with rest }
          counted extended budget (repeated piece least most?)
        | none => if extended then return piece else throw "Unmatched \\\x7b"
      | none => return piece

def counted (extended : Bool) : Nat → Regex → Reading Regex
  | 0, _ => throw "Regular expression too big"
  | budget + 1, piece => do
    let s ← get
    if s.strict && (s.rest.head? == some '*' || (sign? extended ['\x7b'] s.rest).isSome) then
      throw "Invalid preceding regular expression"
    counts extended budget piece

/-- A piece without counts, and whether more may stand behind it as at the
beginning of an expression. -/
def atom (extended : Bool) : Nat → Bool → Reading (Regex × Bool)
  | 0, _ => throw "Regular expression too big"
  | budget + 1, first => do
    let s ← get
    match sign? extended ['('] s.rest with
    | some (_, rest) =>
      let number := s.opened + 1
      set { s with rest, opened := number, depth := s.depth + 1 }
      let body ← alternatives extended budget
      let s ← get
      match sign? extended [')'] s.rest with
      | some (_, rest) =>
        set { s with rest, depth := s.depth - 1 }
        return (group number body, false)
      | none => throw "Unmatched ( or \\("
    | none =>
      match s.rest with
      | [] => return (empty, false)
      | '\\' :: [] => throw "Trailing backslash"
      | '\\' :: c :: rest =>
        set { s with rest }
        if !extended ∧ c = ')' then throw "Unmatched ) or \\)"
        if c.isDigit ∧ c ≠ '0' then
          let number := digitValue c
          if number > s.opened then throw "Invalid back reference"
          return (again number, false)
        else
          match shorthand? c with
          | some r => return (r, false)
          | none => return (one (· == c), false)
      | '.' :: rest =>
        set { s with rest }
        return (one fun c => c != '\x00', false)
      | '[' :: rest =>
        match set? rest with
        | some (test, taken) =>
          set { s with rest := rest.drop taken }
          return (one test, false)
        | none => throw "Unmatched [, [^, [:, [., or [="
      | '^' :: rest =>
        set { s with rest }
        if extended || first then return (lineStart, true) else return (one (· == '^'), false)
      | '$' :: rest =>
        set { s with rest }
        if extended || endsHere extended s.depth rest then return (lineEnd, false)
        else return (one (· == '$'), false)
      | c :: rest =>
        set { s with rest }
        if c = '*' ∧ first then
          if extended then return (empty, true) else return (one (· == '*'), false)
        else return (one (· == c), false)

end

/-- **Reads an expression.** A strict reader refuses a star or a brace right
behind a count. -/
def ofText (extended strict : Bool) (text : String) : Except String Regex :=
  let start : Notation := ⟨text.toList, 0, 0, strict⟩
  match (alternatives extended (8 * text.length + 16)).run start with
  | .ok r s => if s.rest.isEmpty then .ok r else .error "Unmatched ) or \\)"
  | .error message _ => .error message

end Regex

end MapleCompiler.Script
