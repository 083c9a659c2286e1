/-!
# Commands of scripts

A script is a text of commands. A command has words, which stand for texts that
are known when the script runs, and redirections, which say where its streams
lead. Commands are joined into lists, pipes, conditions and loops.

A word is a list of parts: written text, values of parameters, results of
arithmetic and the output of commands. What is quoted stays in one piece and
its characters have no special meaning.

All texts of scripts are bytes, one character for each byte.
-/

namespace MapleCompiler.Script

/-- How a redirection opens its file. -/
inductive OpenMode
  | read
  /-- To write a new file, or one that may be overwritten. -/
  | write
  /-- To write a file, even where overwriting is guarded against. -/
  | overwrite
  /-- To write at the end of a file. -/
  | append
  /-- To read and write a file. -/
  | both
deriving DecidableEq

/-- Which end of a value is cut off. -/
inductive End
  | front
  | back
deriving DecidableEq

mutual

/-- A part of a word. -/
inductive Part
  | text (text : String) (quoted : Bool)
  | parameter (name : String) (change : Change) (quoted : Bool)
  | output (command : Command) (quoted : Bool)
  | arithmetic (expression : List Part) (quoted : Bool)

/-- What is done with the value of a parameter. Where `orEmpty` holds, a value
that is empty counts as one that is not set. -/
inductive Change
  | none
  /-- The number of its bytes. -/
  | length
  /-- Another word instead of a value that is not set. -/
  | fallback (orEmpty : Bool) (word : List Part)
  /-- The same, which the parameter is set to. -/
  | assign (orEmpty : Bool) (word : List Part)
  /-- A message instead of a value that is not set. -/
  | demand (orEmpty : Bool) (word : List Part)
  | instead (orEmpty : Bool) (word : List Part)
  /-- The value without a stretch that a pattern matches. -/
  | trim (side : End) (longest : Bool) (pattern : List Part)
  /-- Something that means nothing. -/
  | invalid

/-- Where a stream of a command leads. -/
inductive Redirect
  | file (descriptor : Nat) (mode : OpenMode) (name : List Part)
  | share (descriptor : Nat) (source : List Part)
  /-- A text that stands in the script, by its number. -/
  | document (descriptor : Nat) (index : Nat)

/-- A command. -/
inductive Command
  | simple (line : Nat) (assignments : List (String × List Part)) (words : List (List Part))
      (redirects : List Redirect)
  | pipe (commands : List Command)
  | negate (command : Command)
  | both (first second : Command)
  | either (first second : Command)
  | sequence (first second : Command)
  | background (command : Command)
  | redirected (line : Nat) (command : Command) (redirects : List Redirect)
  | subshell (line : Nat) (command : Command) (redirects : List Redirect)
  | choice (test yes : Command) (no : Option Command)
  /-- A loop as long as its test succeeds, or fails. -/
  | loop (goOn : Bool) (test body : Command)
  | forEach (line : Nat) (name : String) (words : Option (List (List Part))) (body : Command)
  | select (line : Nat) (subject : List Part) (cases : List (List (List Part) × Option Command))
  | define (name : String) (body : Command)

end

/-- **A word of a script.** -/
abbrev Word : Type := List Part

/-- The text of a word that has no values in it, and whether any of it is
quoted. -/
def Word.plain? : Word → Option (String × Bool)
  | [] => some ("", false)
  | .text text quoted :: rest => (plain? rest).map fun (more, any) => (text ++ more, quoted || any)
  | _ => none

/-- The text of a word without quotes and values. -/
def Word.bare? (word : Word) : Option String :=
  match word with
  | [.text text false] => some text
  | _ => none

def isNameStart (c : Char) : Bool := c == '_' || c.isAlpha

def isNameChar (c : Char) : Bool := c == '_' || c.isAlphanum

def isName (text : String) : Bool :=
  match text.toList with
  | [] => false
  | c :: cs => isNameStart c && cs.all isNameChar

def isSpecialParameter (c : Char) : Bool := "@*#?-$!".toList.contains c

/-- The name and the value of a word of the form `name=value`. -/
def Word.assignment? (word : Word) : Option (String × Word) :=
  match word with
  | .text text false :: rest =>
    let name := text.toList.takeWhile (· != '=')
    match text.toList.drop name.length with
    | [] => none
    | _ :: value =>
      if isName (String.ofList name) then
        some (String.ofList name,
          if value = [] then rest else .text (String.ofList value) false :: rest)
      else none
  | _ => none

end MapleCompiler.Script
