import MapleCompiler.Host.Tool.Basic
import MapleCompiler.Host.Tool.Regex

/-!
# Editing streams

`sed` applies the commands of a script to each line of its input. The line is
in the *pattern space*, which the commands change and which is written at the
end of each round; the *hold space* keeps a text from one round to the next.

A script is read into a list of `Instruction`s. Those of a block stand between
its braces, and a branch goes to the place of a label.
-/

namespace MapleCompiler.Script.Tool

/-- An expression to match; without one the last one that was used is meant. -/
structure Matcher where
  regex? : Option Regex
  folds : Bool

/-- A line that a command is about. -/
inductive Address
  | line (n : Nat)
  | last
  /-- Every so many lines from a first one. -/
  | step (first stride : Nat)
  | matching (m : Matcher)

/-- Where a range of lines ends. -/
inductive RangeEnd
  | address (a : Address)
  /-- So many lines after the first one. -/
  | after (n : Nat)
  /-- At the next line whose number is a multiple. -/
  | multiple (n : Nat)

/-- The lines that a command is about. -/
structure Selector where
  first? : Option Address
  stop? : Option RangeEnd
  negated : Bool

/-- A piece of what a match is replaced with. -/
inductive Replacement
  | text (text : String)
  | group (number : Nat)
  /-- A change of case: of the next character or of all that follows. -/
  | case (letter : Char)

/-- A substitution. -/
structure Substitution where
  matcher : Matcher
  replacement : List Replacement
  everywhere : Bool
  /-- The match that is replaced, from one. -/
  nth : Nat
  prints : Bool
  file? : Option String

/-- What a command does. -/
inductive Action
  /-- The commands up to the index, if the selector accepts the line. -/
  | block (stop : Nat)
  | nothing
  | substitute (s : Substitution)
  | translate (table : List (Char × Char))
  | append (text : String)
  | insert (text : String)
  | change (text : String)
  /-- Goes to a label; `when?` says after which outcome of substitutions. -/
  | branch (when? : Option Bool) (label : String)
  | delete
  | deleteFirst
  | print
  | printFirst
  | next
  | nextAppend
  | hold
  | holdAppend
  | get
  | getAppend
  | exchange
  | number
  | list
  | empty
  | quit (prints : Bool) (status : Nat)
  | readFile (name : String)
  | writeFile (name : String) (onlyFirst : Bool)
  | fileName

/-- A command of a script with the lines it is about. -/
structure Instruction where
  selector : Selector
  action : Action

/-! ## Reading scripts -/

/-- What is left of a script to read. -/
structure ScriptText where
  rest : List Char
  /-- How many characters were read. -/
  taken : Nat
  instructions : Array Instruction
  openBlocks : List Nat
  labels : List (String × Nat)
  extended : Bool

/-- A step of reading a script. A failure says what is wrong, and after how many
characters. -/
abbrev ScriptReader (α : Type) : Type := EStateM (Nat × String) ScriptText α

namespace ScriptReader

def fault {α : Type} (message : String) : ScriptReader α := do
  throw ((← get).taken, message)

def drop (n : Nat) : ScriptReader Unit := modify fun s =>
  { s with rest := s.rest.drop n, taken := s.taken + min n s.rest.length }

/-- The next character, which stays. -/
def peek? : ScriptReader (Option Char) := return (← get).rest.head?

def takeWhile (test : Char → Bool) : ScriptReader (List Char) := do
  let front := (← get).rest.takeWhile test
  drop front.length
  return front

def blanks : ScriptReader Unit := discard (takeWhile fun c => c == ' ' || c == '\t')

def number : ScriptReader Nat := return digitsValue 10 (← takeWhile Char.isDigit)

/-- What a text up to a mark is for. -/
inductive Purpose
  /-- An expression, in which a mark between brackets is no mark. -/
  | regex
  | replacement
  | table
deriving DecidableEq

def lineFeeds : List Char → List Char
  | '\\' :: 'n' :: rest => '\n' :: lineFeeds rest
  | c :: rest => c :: lineFeeds rest
  | [] => []

/-- The text up to a mark, of which an escaped mark is part, and how many
characters it takes. -/
def delimited (mark : Char) (purpose : Purpose) :
    Nat → List Char → List Char → Nat → Option (List Char × Nat)
  | 0, _, _, _ => none
  | _, [], _, _ => none
  | budget + 1, c :: cs, done, taken =>
    if c = mark then some (done.reverse, taken + 1)
    else if c = '\\' then
      match cs with
      | [] => none
      | d :: rest =>
        if d = mark then
          let kept := purpose = .replacement ∧ (mark = '&' ∨ mark.isDigit)
          delimited mark purpose budget rest (if kept then d :: '\\' :: done else d :: done)
            (taken + 2)
        else if d = 'n' ∧ purpose ≠ .replacement then
          delimited mark purpose budget rest ('\n' :: done) (taken + 2)
        else delimited mark purpose budget rest (d :: '\\' :: done) (taken + 2)
    else if c = '\n' ∧ purpose ≠ .replacement then none
    else
      match if purpose = .regex ∧ c = '[' then Regex.set? cs else none with
      | some (_, size) =>
        delimited mark purpose budget (cs.drop size)
          ((lineFeeds (cs.take size)).reverse ++ c :: done)
          (taken + 1 + size)
      | none => delimited mark purpose budget cs (c :: done) (taken + 1)

def upTo (mark : Char) (purpose : Purpose) (problem : String) : ScriptReader (List Char) := do
  let s ← get
  match delimited mark purpose (s.rest.length + 1) s.rest [] 0 with
  | some (text, taken) =>
    drop taken
    return text
  | none =>
    drop s.rest.length
    fault problem

def charEscapes : List (Char × Char) :=
  [('t', '\t'), ('f', '\x0c'), ('v', '\x0b'), ('a', '\x07'), ('r', '\r')]

def plainRegex : List Char → List Char
  | '\\' :: c :: rest =>
    match charEscapes.lookup c with
    | some d => d :: plainRegex rest
    | none => '\\' :: c :: plainRegex rest
  | c :: rest => c :: plainRegex rest
  | [] => []

/-- The expression of a text; an empty one means the last one that was used. -/
def matcher (text : List Char) (folds : Bool) : ScriptReader Matcher := do
  if text = [] then return ⟨none, folds⟩
  else
    let extended := (← get).extended
    match Regex.ofText extended (!extended) (String.ofList (plainRegex text)) with
    | .ok r => return ⟨some r, folds⟩
    | .error message => fault message

def address? : ScriptReader (Option Address) := do
  match ← peek? with
  | none => return none
  | some c =>
    if c.isDigit then
      let n ← number
      if (← peek?) = some '~' then
        drop 1
        return some (.step n (← number))
      else return some (.line n)
    else if c = '$' then
      drop 1
      return some .last
    else if c = '/' ∨ c = '\\' then
      drop 1
      let mark ← if c = '\\' then do
          let mark := (← peek?).getD '/'
          drop 1
          pure mark
        else pure '/'
      let text ← upTo mark .regex "unterminated address regex"
      let flags ← takeWhile fun c => c == 'I' || c == 'M'
      return some (.matching (← matcher text (flags.contains 'I')))
    else return none

def rangeEnd : ScriptReader RangeEnd := do
  blanks
  match ← peek? with
  | some '+' =>
    drop 1
    return .after (← number)
  | some '~' =>
    drop 1
    return .multiple (← number)
  | _ =>
    match ← address? with
    | some a => return .address a
    | none =>
      drop 1
      fault "unexpected \x60,'"

def selector : ScriptReader Selector := do
  let first? ← address?
  blanks
  let stop? ← if first?.isSome && (← peek?) = some ',' then do
      drop 1
      some <$> rangeEnd
    else pure none
  blanks
  let negated := (← peek?) = some '!'
  if negated then
    drop 1
    blanks
    if (← peek?) = some '!' then
      drop 1
      fault "multiple \x60!'s"
  return ⟨first?, stop?, negated⟩

/-- What stands behind a command up to its end, which may be a bracket. -/
def commandEnd : ScriptReader Unit := do
  blanks
  match ← peek? with
  | none => pure ()
  | some c =>
    if c = ';' ∨ c = '\n' then drop 1
    else if c = '\x7d' ∨ c = '#' then pure ()
    else
      drop 1
      fault "extra characters after command"

def restOfLine : ScriptReader String := do
  blanks
  let text ← takeWhile (· != '\n')
  drop 1
  return String.ofList text

/-- A label: up to a semicolon or the end of the line. -/
def label : ScriptReader String := do
  blanks
  let text ← takeWhile fun c => c != '\n' && c != ';'
  drop 1
  return String.ofList (text.reverse.dropWhile fun c => c == ' ' || c == '\t').reverse

def textLines : Nat → List Char → List Char → Nat → List Char × Nat
  | 0, _, done, taken => (done.reverse, taken)
  | _, [], done, taken => (done.reverse, taken)
  | budget + 1, c :: cs, done, taken =>
    if c = '\n' then (done.reverse, taken + 1)
    else if c = '\\' then
      match cs with
      | [] => (done.reverse, taken + 1)
      | d :: rest => textLines budget rest (d :: done) (taken + 2)
    else textLines budget cs (c :: done) (taken + 1)

def textArgument : ScriptReader String := do
  blanks
  match (← get).rest with
  | [] => fault "expected \\ after \x60a', \x60c' or \x60i'"
  | '\\' :: rest =>
    drop 1
    let gap := rest.takeWhile fun c => c == ' ' || c == '\t'
    match rest.drop gap.length with
    | '\n' :: _ => drop (gap.length + 1)
    | [] =>
      drop gap.length
      fault "expected \\ after \x60a', \x60c' or \x60i'"
    | _ => drop gap.length
  | _ => pure ()
  let s ← get
  let (text, taken) := textLines (s.rest.length + 1) s.rest [] 0
  drop taken
  return String.ofList text ++ "\n"

def replacementPieces : Nat → List Char → List Char → List Replacement
  | 0, _, _ => []
  | _, [], done => if done = [] then [] else [.text (String.ofList done.reverse)]
  | budget + 1, c :: cs, done =>
    let before : List Replacement := if done = [] then [] else [.text (String.ofList done.reverse)]
    if c = '&' then before ++ .group 0 :: replacementPieces budget cs []
    else if c = '\\' then
      match cs with
      | [] => replacementPieces budget [] ('\\' :: done)
      | d :: rest =>
        if d.isDigit then before ++ .group (digitValue d) :: replacementPieces budget rest []
        else if "LUluE".toList.contains d then
          before ++ .case d :: replacementPieces budget rest []
        else if d = 'n' then replacementPieces budget rest ('\n' :: done)
        else
          match charEscapes.lookup d with
          | some e => replacementPieces budget rest (e :: done)
          | none => replacementPieces budget rest (d :: done)
    else replacementPieces budget cs (c :: done)

def groupCount (extended : Bool) : List Char → Nat
  | '\\' :: c :: rest => (if c = '(' ∧ !extended then 1 else 0) + groupCount extended rest
  | c :: rest => (if c = '(' ∧ extended then 1 else 0) + groupCount extended rest
  | [] => 0

def substituteFlags : Nat → Substitution → Bool → ScriptReader (Substitution × Bool)
  | 0, s, folds => return (s, folds)
  | budget + 1, s, folds => do
    match ← peek? with
    | some 'g' =>
      drop 1
      if s.everywhere then fault "multiple \x60g' options to \x60s' command"
      substituteFlags budget { s with everywhere := true } folds
    | some 'p' =>
      drop 1
      if s.prints then fault "multiple \x60p' options to \x60s' command"
      substituteFlags budget { s with prints := true } folds
    | some 'w' =>
      drop 1
      let name ← restOfLine
      if name = "" then fault "missing filename in r/R/w/W commands"
      return ({ s with file? := some name }, folds)
    | some c =>
      if c = 'i' ∨ c = 'I' then
        drop 1
        substituteFlags budget s true
      else if c = 'm' ∨ c = 'M' then
        drop 1
        substituteFlags budget s folds
      else if c.isDigit then
        let n ← number
        if n = 0 then fault "number option to \x60s' command may not be zero"
        substituteFlags budget { s with nth := n } folds
      else if c = ' ' ∨ c = '\t' ∨ c = ';' ∨ c = '\n' ∨ c = '\x7d' ∨ c = '#' then
        commandEnd
        return (s, folds)
      else
        drop 1
        fault "unknown option to \x60s'"
    | none => return (s, folds)

def substitution : ScriptReader Action := do
  let problem := "unterminated \x60s' command"
  match ← peek? with
  | none => fault problem
  | some mark =>
    drop 1
    let pattern ← upTo mark .regex problem
    let replacement ← upTo mark .replacement problem
    let pieces := replacementPieces (replacement.length + 1) replacement []
    let start : Substitution := ⟨⟨none, false⟩, pieces, false, 1, false, none⟩
    let (s, folds) ← substituteFlags ((← get).rest.length + 1) start false
    let most := (pieces.map fun
      | .group n => n
      | _ => 0).foldl max 0
    let m ← matcher pattern folds
    if pattern ≠ [] ∧ groupCount (← get).extended pattern < most then
      fault ("invalid reference \\" ++ toString most ++ " on \x60s' command's RHS")
    return .substitute { s with matcher := m }

/-- The characters of an operand of `y`. -/
def tableChars : List Char → List Char
  | '\\' :: '\\' :: rest => '\\' :: tableChars rest
  | '\\' :: 'n' :: rest => '\n' :: tableChars rest
  | c :: rest => c :: tableChars rest
  | [] => []

def translation : ScriptReader Action := do
  let problem := "unterminated \x60y' command"
  match ← peek? with
  | none => fault problem
  | some mark =>
    drop 1
    let source := tableChars (← upTo mark .table problem)
    let target := tableChars (← upTo mark .table problem)
    if source.length ≠ target.length then
      fault "strings for \x60y' command are different lengths"
    commandEnd
    return .translate (source.zip target)

def fileArgument : ScriptReader String := do
  let name ← restOfLine
  if name = "" then fault "missing filename in r/R/w/W commands"
  return name

def plainActions : List (Char × Action) :=
  [('d', .delete), ('D', .deleteFirst), ('p', .print), ('P', .printFirst), ('n', .next),
    ('N', .nextAppend), ('h', .hold), ('H', .holdAppend), ('g', .get), ('G', .getAppend),
    ('x', .exchange), ('=', .number), ('z', .empty), ('F', .fileName)]

def add (selector : Selector) (action : Action) : ScriptReader Unit := modify fun s =>
  { s with instructions := s.instructions.push ⟨selector, action⟩ }

/-- The status behind a command that ends the script, which is about one line. -/
def quitStatus (selector : Selector) : ScriptReader Nat := do
  if selector.stop?.isSome then fault "command only uses one address"
  blanks
  let status ← number
  commandEnd
  return status

def commands : Nat → ScriptReader Unit
  | 0 => pure ()
  | budget + 1 => do
    let _ ← takeWhile fun c => isBlank c || c == ';'
    if (← get).rest.isEmpty then pure ()
    else
      let selector ← selector
      match ← peek? with
      | none => fault "missing command"
      | some c =>
        drop 1
        match plainActions.lookup c with
        | some action =>
          commandEnd
          add selector action
        | none =>
          match c with
          | '\x7b' =>
            modify fun s => { s with openBlocks := s.instructions.size :: s.openBlocks }
            add selector (.block 0)
          | '\x7d' =>
            if selector.first?.isSome then fault "\x7d doesn't want any addresses"
            match (← get).openBlocks with
            | [] => fault "unexpected \x60\x7d'"
            | start :: outer =>
              commandEnd
              modify fun s => { s with
                openBlocks := outer
                instructions := match s.instructions[start]? with
                  | some i =>
                    s.instructions.setIfInBounds start
                      { i with action := .block s.instructions.size }
                  | none => s.instructions }
          | '#' =>
            if selector.first?.isSome then fault "comments don't accept any addresses"
            let _ ← takeWhile (· != '\n')
          | 's' => add selector (← substitution)
          | 'y' => add selector (← translation)
          | 'a' => add selector (.append (← textArgument))
          | 'i' => add selector (.insert (← textArgument))
          | 'c' => add selector (.change (← textArgument))
          | ':' =>
            if selector.first?.isSome then fault ": doesn't want any addresses"
            let name ← label
            if name = "" then fault "\":\" lacks a label"
            modify fun s => { s with labels := (name, s.instructions.size) :: s.labels }
          | 'b' => add selector (.branch none (← label))
          | 't' => add selector (.branch (some true) (← label))
          | 'T' => add selector (.branch (some false) (← label))
          | 'l' =>
            blanks
            let _ ← number
            commandEnd
            add selector .list
          | 'q' => add selector (.quit true (← quitStatus selector))
          | 'Q' => add selector (.quit false (← quitStatus selector))
          | 'r' => add selector (.readFile (← fileArgument))
          | 'w' => add selector (.writeFile (← fileArgument) false)
          | 'W' => add selector (.writeFile (← fileArgument) true)
          | c => fault ("unknown command: \x60" ++ c.toString ++ "'")
        commands budget

end ScriptReader

/-! ## Running scripts -/

/-- The state of an editor. -/
structure Editor where
  /-- The lines that are still to come: each with its end or without, and the
  name of its file. -/
  input : List (String × Bool × String)
  line : Nat
  space : String
  /-- Whether the line in the pattern space had an end. -/
  ended : Bool
  file : String
  held : String
  /-- What is written after this round. -/
  queue : List String
  /-- Whether a substitution was made since the last line or test. -/
  replaced : Bool
  /-- The ranges that are open, by the index of their command, and the lines
  where they end if that is known. -/
  ranges : List (Nat × Option Nat)
  /-- The expression that was used last. -/
  last? : Option Matcher
  quiet : Bool
  output : String
  /-- Whether an end of line is owed to the output. -/
  owes : Bool
  files : List (String × Nat)

/-- A step of editing. -/
abbrev Editing (α : Type) : Type := StateT Editor Sh α

/-- What comes after a command. -/
inductive Flow
  | goTo (index : Nat)
  /-- The round ends. -/
  | done
  /-- The round ends without writing the pattern space. -/
  | drop
  /-- The next round begins without reading a line. -/
  | restart
  | quit (prints : Bool) (status : Nat)

namespace Editing

def write (text : String) : Editing Unit := modify fun e =>
  { e with output := e.output ++ (if e.owes && text ≠ "" then "\n" else "") ++ text
           owes := if text = "" then e.owes else false }

/-- Writes a line, whose end is left out if the line that was read has none. -/
def writeLine (text : String) : Editing Unit := do
  let e ← get
  if e.ended then write (text ++ "\n")
  else
    modify fun e =>
      { e with output := e.output ++ (if e.owes then "\n" else "") ++ text, owes := true }

def matchesSpace (m : Matcher) : Editing (Option Regex.Match) := do
  let e ← get
  let m ← match m.regex? with
    | some _ => pure m
    | none =>
      match e.last? with
      | some last => pure last
      | none => (fail "-e expression #1, char 0: no previous regular expression" 1 : Sh Matcher)
  set { e with last? := some m }
  match m.regex? with
  | some r => return r.search m.folds 0 none e.space.toList
  | none => return none

def isAt : Address → Editing Bool
  | .line n => return (← get).line == n
  | .last => return (← get).input.isEmpty
  | .step first stride => do
    let line := (← get).line
    return if stride = 0 then line == first else first ≤ line && (line - first) % stride == 0
  | .matching m => return (← matchesSpace m).isSome

def setRange (index : Nat) (range? : Option (Option Nat)) : Editing Unit := modify fun e =>
  let others := e.ranges.filter (·.1 != index)
  { e with ranges := match range? with
      | some stop? => (index, stop?) :: others
      | none => others }

def beginsRange (index : Nat) (first : Address) (stop : RangeEnd) : Editing Bool := do
  let line := (← get).line
  if ← isAt first then
    match stop with
    | .address (.line n) => setRange index (if n ≤ line then none else some (some n))
    | .after n => setRange index (if n = 0 then none else some (some (line + n)))
    | .multiple n =>
      let target := if n = 0 then line else (line + n - 1) / n * n
      setRange index (if target ≤ line then none else some (some target))
    | .address .last => setRange index (if (← get).input.isEmpty then none else some none)
    | .address _ => setRange index (some none)
    return true
  else return false

def selects (index : Nat) (s : Selector) : Editing Bool := do
  let accepted ← match s.first?, s.stop? with
    | none, _ => pure true
    | some first, none => isAt first
    | some first, some stop =>
      let e ← get
      match e.ranges.lookup index with
      | some (some last) =>
        if e.line > last then
          setRange index none
          beginsRange index first stop
        else
          if e.line = last then setRange index none
          pure true
      | some none =>
        match stop with
        | .address a => if ← isAt a then setRange index none
        | _ => pure ()
        pure true
      | none =>
        match first, stop with
        | .line 0, .address a =>
          if e.line = 1 then
            if !(← isAt a) then setRange index (some none)
            pure true
          else pure false
        | _, _ => beginsRange index first stop
  return accepted != s.negated

def cased (mode? once? : Option Char) (text : String) : String :=
  let whole := match mode? with
    | some 'U' => text.toUpper
    | some 'L' => text.toLower
    | _ => text
  match once?, whole.toList with
  | some 'u', c :: rest => String.ofList (c.toUpper :: rest)
  | some 'l', c :: rest => String.ofList (c.toLower :: rest)
  | _, _ => whole

def replacementText (m : Regex.Match) : Option Char → Option Char → List Replacement → String
  | _, _, [] => ""
  | mode?, _, .case c :: rest =>
    if c = 'u' ∨ c = 'l' then replacementText m mode? (some c) rest
    else replacementText m (if c = 'E' then none else some c) none rest
  | mode?, once?, piece :: rest =>
    let text := match piece with
      | .text text => text
      | .group n => String.ofList (m.group n)
      | .case _ => ""
    cased mode? once? text ++
      replacementText m mode? (if text = "" then once? else none) rest

/-- A text with matches replaced from a place on, of which `count` were seen; and
whether any was. A match right behind another is not empty. -/
def replaceFrom (s : Substitution) (r : Regex) (folds : Bool) :
    Nat → Nat → Nat → Option Char → Bool → List Char → String × Bool
  | 0, _, _, _, _, cs => (String.ofList cs, false)
  | budget + 1, count, offset, before?, afterMatch, cs =>
    match r.search folds offset before? cs with
    | none => (String.ofList cs, false)
    | some m =>
      let front := cs.take (m.start - offset)
      if m.taken = [] ∧ afterMatch ∧ front = [] then
        match cs with
        | [] => ("", false)
        | c :: rest =>
          let (text, any) := replaceFrom s r folds budget count (offset + 1) (some c) false rest
          (c.toString ++ text, any)
      else
        let chosen := count + 1 ≥ s.nth
        let middle := if chosen then replacementText m none none s.replacement
          else String.ofList m.taken
        if chosen ∧ !s.everywhere then
          (String.ofList front ++ middle ++ String.ofList m.rest, true)
        else
          match m.taken, m.rest with
          | [], [] => (String.ofList front ++ middle, chosen)
          | [], c :: rest =>
            let (text, any) := replaceFrom s r folds budget (count + 1) (m.start + 1) (some c) false
              rest
            (String.ofList front ++ middle ++ c.toString ++ text, chosen || any)
          | taken, rest =>
            let (text, any) := replaceFrom s r folds budget (count + 1) (m.start + taken.length)
              taken.getLast? true rest
            (String.ofList front ++ middle ++ text, chosen || any)

def readNext (appends : Bool) : Editing Bool := do
  let e ← get
  match e.input with
  | [] => return false
  | (text, ended, file) :: rest =>
    set { e with
      input := rest, line := e.line + 1, ended, file
      space := if appends then e.space ++ "\n" ++ text else text }
    return true

def flushQueue : Editing Unit := do
  let e ← get
  set { e with queue := [] }
  e.queue.forM write

/-- Ends a round: writes the pattern space, and what was kept for its end. -/
def endRound (prints : Bool) : Editing Unit := do
  let e ← get
  if prints && !e.quiet then writeLine e.space
  flushQueue

/-- The channel of a file that is written to, which is opened once. -/
def writeTo (name text : String) : Editing Unit := do
  if name = "/dev/stdout" then write text
  else
    match (← get).files.lookup name with
    | some channel => Sh.writeChannel channel text
    | none => pure ()

/-- A character as the command `l` shows it. -/
def unambiguous (c : Char) : String :=
  match c with
  | '\\' => "\\\\"
  | '\x07' => "\\a"
  | '\x08' => "\\b"
  | '\x0c' => "\\f"
  | '\n' => "\\n"
  | '\r' => "\\r"
  | '\t' => "\\t"
  | '\x0b' => "\\v"
  | c =>
    if ' ' ≤ c ∧ c ≤ '~' then c.toString
    else
      let digits := String.ofList (Nat.toDigits 8 c.toNat)
      "\\" ++ "".pushn '0' (3 - digits.length) ++ digits

def firstLine (text : String) : String := String.ofList (text.toList.takeWhile (· != '\n'))

/-- Does what a command says; `index` is that of the next one. -/
def act (labels : List (String × Nat)) (size index : Nat) (selector : Selector) :
    Action → Editing Flow
  | .block _ => return .goTo index
  | .nothing => return .goTo index
  | .substitute s => do
    let e ← get
    let m ← match s.matcher.regex? with
      | some _ => pure s.matcher
      | none =>
        match e.last? with
        | some last => pure last
        | none => (fail "-e expression #1, char 0: no previous regular expression" 1 : Sh Matcher)
    set { e with last? := some m }
    match m.regex? with
    | none => return .goTo index
    | some r =>
      let (text, any) :=
        replaceFrom s r m.folds (2 * e.space.length + 4) 0 0 none false e.space.toList
      if any then
        modify fun e => { e with space := text, replaced := true }
        if s.prints then writeLine text
        match s.file? with
        | some name => writeTo name (text ++ "\n")
        | none => pure ()
      return .goTo index
  | .translate table => do
    modify fun e => { e with
      space := String.ofList (e.space.toList.map fun c => (table.lookup c).getD c) }
    return .goTo index
  | .append text => do
    modify fun e => { e with queue := e.queue ++ [text] }
    return .goTo index
  | .insert text => do
    write text
    return .goTo index
  | .change text => do
    let stillOpen := (← get).ranges.any (·.1 == index - 1)
    if selector.negated || selector.stop?.isNone || !stillOpen then write text
    return .drop
  | .branch when? label => do
    let e ← get
    let goes := match when? with
      | none => true
      | some wanted => e.replaced == wanted
    if when?.isSome && e.replaced then set { e with replaced := false }
    if goes then
      if label = "" then return .done
      else return .goTo ((labels.lookup label).getD size)
    else return .goTo index
  | .delete => return .drop
  | .deleteFirst => do
    let e ← get
    if e.space.toList.contains '\n' then
      set { e with space := String.ofList ((e.space.toList.dropWhile (· != '\n')).drop 1) }
      return .restart
    else return .drop
  | .print => do
    writeLine (← get).space
    return .goTo index
  | .printFirst => do
    write (firstLine (← get).space ++ "\n")
    return .goTo index
  | .next => do
    let e ← get
    if e.input.isEmpty then return .quit true 0
    else
      if !e.quiet then writeLine e.space
      flushQueue
      let _ ← readNext false
      return .goTo index
  | .nextAppend => do
    let e ← get
    if e.input.isEmpty then return .quit true 0
    else
      flushQueue
      let _ ← readNext true
      return .goTo index
  | .hold => do
    modify fun e => { e with held := e.space }
    return .goTo index
  | .holdAppend => do
    modify fun e => { e with held := e.held ++ "\n" ++ e.space }
    return .goTo index
  | .get => do
    modify fun e => { e with space := e.held }
    return .goTo index
  | .getAppend => do
    modify fun e => { e with space := e.space ++ "\n" ++ e.held }
    return .goTo index
  | .exchange => do
    modify fun e => { e with space := e.held, held := e.space }
    return .goTo index
  | .number => do
    write (toString (← get).line ++ "\n")
    return .goTo index
  | .list => do
    write (String.join ((← get).space.toList.map unambiguous) ++ "$\n")
    return .goTo index
  | .empty => do
    modify fun e => { e with space := "" }
    return .goTo index
  | .quit prints status => return .quit prints status
  | .readFile name => do
    match ← (readOperand name : Sh _) with
    | .ok text => modify fun e => { e with queue := e.queue ++ [text] }
    | .error _ => pure ()
    return .goTo index
  | .writeFile name onlyFirst => do
    let space := (← get).space
    writeTo name ((if onlyFirst then firstLine space else space) ++ "\n")
    return .goTo index
  | .fileName => do
    write ((← get).file ++ "\n")
    return .goTo index

def runFrom (script : Array Instruction) (labels : List (String × Nat)) :
    Nat → Nat → Editing Flow
  | 0, _ => return .done
  | budget + 1, index => do
    match script[index]? with
    | none => return .done
    | some i =>
      if ← selects index i.selector then
        match ← act labels script.size (index + 1) i.selector i.action with
        | .goTo next => runFrom script labels budget next
        | flow => return flow
      else
        match i.action with
        | .block stop => runFrom script labels budget stop
        | _ => runFrom script labels budget (index + 1)

def rounds (script : Array Instruction) (labels : List (String × Nat)) :
    Nat → Bool → Editing Nat
  | 0, _ => return 0
  | budget + 1, reads => do
    let there ← if reads then readNext false else pure true
    if !there then return 0
    else
      match ← runFrom script labels 100000 0 with
      | .restart =>
        flushQueue
        rounds script labels budget false
      | .quit prints status =>
        endRound prints
        return status
      | .drop =>
        endRound false
        rounds script labels budget true
      | _ =>
        endRound true
        rounds script labels budget true

end Editing

def writtenFiles (script : Array Instruction) : List String :=
  (script.toList.filterMap fun i => match i.action with
    | .substitute s => s.file?
    | .writeFile name _ => some name
    | _ => none).eraseDups

/-- What `sed` says about its use. -/
def editUsage : String :=
  "Usage: sed [OPTION]... \x7bscript-only-if-no-other-script\x7d [input-file]...\n\n  -n, --quiet, --silent\n                 suppress automatic printing of pattern space\n      --debug\n                 annotate program execution\n  -e script, --expression=script\n                 add the script to the commands to be executed\n  -f script-file, --file=script-file\n                 add the contents of script-file to the commands to be executed\n  --follow-symlinks\n                 follow symlinks when processing in place\n  -i[SUFFIX], --in-place[=SUFFIX]\n                 edit files in place (makes backup if SUFFIX supplied)\n  -l N, --line-length=N\n                 specify the desired line-wrap length for the \x60l' command\n  --posix\n                 disable all GNU extensions.\n  -E, -r, --regexp-extended\n                 use extended regular expressions in the script\n                 (for portability use POSIX -E).\n  -s, --separate\n                 consider files as separate rather than as a single,\n                 continuous long stream.\n      --sandbox\n                 operate in sandbox mode (disable e/r/w commands).\n  -u, --unbuffered\n                 load minimal amounts of data from the input files and flush\n                 the output buffers more often\n  -z, --null-data\n                 separate lines by NUL characters\n      --help     display this help and exit\n      --version  output version information and exit\n\nIf no -e, --expression, -f, or --file option is given, then the first\nnon-option argument is taken as the sed script to interpret.  All\nremaining arguments are names of input files; if no input files are\nspecified, then the standard input is read.\n\n"

def sed : Tool := fun _ arguments => do
  let (found, operands) ← ({
    letters := "bEe:f:i::l:nrsuz"
    names := [("quiet", 'n'), ("silent", 'n'), ("expression", 'e'), ("file", 'f'),
      ("in-place", 'i'), ("regexp-extended", 'E'), ("separate", 's'), ("posix", 'u'),
      ("unbuffered", 'u'), ("null-data", 'z')]
    status := 1, ordered := false } : Options).read arguments
  let given := found.filter fun (c, _) => c == 'e' || c == 'f'
  let (sources, names) ← match given, operands with
    | [], [] => do
      Sh.complain editUsage
      leave 1
    | [], script :: names => pure ([('e', script)], names)
    | given, names => pure (given, names)
  let extended := has found 'E' || has found 'r'
  let mut state : ScriptText := ⟨[], 0, #[], [], [], extended⟩
  let mut quiet := has found 'n'
  let mut index := 0
  for (kind, source) in sources do
    let (text, place) ← if kind = 'e' then do
        index := index + 1
        pure (source, "-e expression #" ++ toString index)
      else
        match ← readOperand source with
        | .ok text => pure (text, "file " ++ source ++ " line 1")
        | .error e => fail ("couldn't open file " ++ source ++ ": " ++ e.reason) 1
    if index ≤ 1 ∧ (text.startsWith "#n\n" ∨ text = "#n") then quiet := true
    match (ScriptReader.commands (2 * text.length + 4)).run
        { state with rest := text.toList, taken := 0 } with
    | .ok () s => state := s
    | .error (taken, message) _ =>
      fail (place ++ (if kind = 'e' then ", char " ++ toString taken else "") ++ ": " ++ message) 1
  if !state.openBlocks.isEmpty then
    fail ("-e expression #" ++ toString (max index 1) ++ ", char 0: unmatched \x60\x7b'") 1
  let script := state.instructions
  let labels := state.labels
  for i in script.toList do
    match i.action with
    | .branch _ label =>
      if label ≠ "" ∧ (labels.lookup label).isNone then
        fail ("can't find label for jump to \x60" ++ label ++ "'") 4
    | _ => pure ()
  let mut files := []
  for name in writtenFiles script do
    if name ≠ "/dev/stdout" then
      match ← Sh.openPath name .overwrite with
      | .ok channel => files := (name, channel) :: files
      | .error e => fail ("couldn't open file " ++ name ++ ": " ++ e.reason) 4
  let mut status := 0
  let mut inputs : List (String × List (String × Bool × String)) := []
  for name in if names.isEmpty then ["-"] else names do
    match ← readOperand name with
    | .ok text =>
      let (all, ended) := lines text
      let marked := all.zipIdx.map fun (line, i) => (line, ended || i + 1 < all.length, name)
      inputs := inputs ++ [(name, marked)]
    | .error .isDirectory =>
      say (if has found 'i' then "couldn't edit " ++ name ++ ": not a regular file"
        else "couldn't read " ++ name ++ ": Is a directory")
      status := if has found 'i' then 4 else 2
    | .error e =>
      say ("can't read " ++ name ++ ": " ++ e.reason)
      status := 2
  let start : Editor :=
    ⟨[], 0, "", true, "-", "", [], false, [], none, quiet, "", false, files⟩
  let run (e : Editor) (input : List (String × Bool × String)) : Sh (Nat × Editor) :=
    (Editing.rounds script labels (1000 + 100 * input.length) true).run { e with input }
  if has found 'i' || has found 's' then
    let mut editor := start
    for (name, input) in inputs do
      let (code, after) ← run { editor with line := 0 } input
      if code ≠ 0 then status := code
      if has found 'i' && name ≠ "-" then
        let ending := (valueOf? found 'i').getD ""
        if ending ≠ "" then
          let _ ← Sh.writeFile (name ++ ending)
            (joined (input.map (·.1)) ((input.getLast?.map (·.2.1)).getD true))
        match ← Sh.writeFile name after.output with
        | .ok () => pure ()
        | .error e => fail ("couldn't open temporary file: " ++ e.reason) 4
      else Sh.print after.output
      editor := { after with output := "", owes := false }
    return status
  else
    let merged := inputs.flatMap (·.2)
    let fixed := merged.zipIdx.map fun ((line, ended, name), i) =>
      (line, ended || i + 1 < merged.length, name)
    let (code, after) ← run start fixed
    Sh.print after.output
    return if code ≠ 0 then code else status

end MapleCompiler.Script.Tool
