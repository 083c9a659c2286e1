import MapleCompiler.Host.Tool.Files
import MapleCompiler.Host.Tool.Lines
import MapleCompiler.Host.Tool.Regex

/-!
# Searching files

`grep` writes the lines of files in which an expression matches, `find` the
paths below a directory that pass tests.
-/

namespace MapleCompiler.Script.Tool

/-! ## Lines -/

/-- What is searched for, and what is written. -/
structure Searching where
  regex : Regex
  folds : Bool
  inverted : Bool
  /-- Only the stretches that match are written. -/
  onlyMatching : Bool
  numbered : Bool
  titled : Bool
  counts : Bool
  /-- Only the names of files with matches are written, or of those without. -/
  lists? : Option Bool
  quiet : Bool
  most? : Option Nat
  before : Nat
  behind : Nat

def Searching.accepts (s : Searching) (line : String) : Bool :=
  s.regex.occurs s.folds line != s.inverted

def stretches (s : Searching) : Nat → Nat → Option Char → List Char → List String
  | 0, _, _, _ => []
  | budget + 1, offset, before?, cs =>
    match s.regex.search s.folds offset before? cs with
    | none => []
    | some m =>
      let skipped := m.start - offset
      match m.taken with
      | [] =>
        match cs.drop skipped with
        | [] => []
        | c :: rest => stretches s budget (m.start + 1) (some c) rest
      | taken =>
        String.ofList taken ::
          stretches s budget (m.start + taken.length) taken.getLast? m.rest

/-- The mark before a line that is searched for, or stands beside one. -/
def Searching.mark (s : Searching) (name : String) (number : Nat) (sign : String) : String :=
  (if s.titled then name ++ sign else "") ++ (if s.numbered then toString number ++ sign else "")

/-- The lines of a file that are written, where `due` lines behind the last
match are still to come and `held` lines before are kept; `gap` says whether
lines were left out. -/
def searchLines (s : Searching) (name : String) :
    List (String × Nat) → (found due : Nat) → (held : List (String × Nat)) → (gap : Bool) →
    List String
  | [], _, _, _, _ => []
  | (line, number) :: rest, found, due, held, gap =>
    let finished := s.most?.any (· ≤ found)
    if !finished && s.accepts line then
      let context := s.before > 0 || s.behind > 0
      let divider := if context && gap && found > 0 then ["--\n"] else []
      let earlier := held.map fun (line, n) => s.mark name n "-" ++ line ++ "\n"
      let shown := if s.onlyMatching then
          if s.inverted then []
          else (stretches s (line.length + 1) 0 none line.toList).map fun piece =>
            s.mark name number ":" ++ piece ++ "\n"
        else [s.mark name number ":" ++ line ++ "\n"]
      divider ++ earlier ++ shown ++ searchLines s name rest (found + 1) s.behind [] false
    else if due > 0 then
      (if s.onlyMatching then [] else [s.mark name number "-" ++ line ++ "\n"]) ++
        searchLines s name rest found (due - 1) [] gap
    else if finished then []
    else
      let kept := held ++ [(line, number)]
      let dropped := kept.length > s.before
      searchLines s name rest found 0 (if dropped then kept.drop 1 else kept) (gap || dropped)

/-- Searches the bytes of a file. Gives whether something was found. -/
def searchText (s : Searching) (name text : String) : Sh Bool := do
  let all := (lines text).1
  let hits := (all.filter s.accepts).length
  let hits := match s.most? with
    | some most => min most hits
    | none => hits
  let isBinary := text.toList.contains '\x00'
  if s.quiet then return hits > 0
  else
    match s.lists? with
    | some wanted =>
      if (hits > 0) == wanted then Sh.print (name ++ "\n")
      return (hits > 0) == wanted
    | none =>
      if s.counts then Sh.print ((if s.titled then name ++ ":" else "") ++ toString hits ++ "\n")
      else if isBinary then
        if hits > 0 then say (name ++ ": binary file matches")
      else
        Sh.print (String.join (searchLines s name (all.zipIdx.map fun (line, i) => (line, i + 1))
          0 0 [] false))
      return hits > 0

/-- A text in which nothing is special, as an expression. -/
def literally (text : String) : Regex :=
  text.toList.foldr (fun c r => .both (.one (· == c)) r) .empty

def filesBelow (tree : FileTree) (path : String) : List String :=
  match tree.find (Octets.toText path) with
  | .ok (place, .directory _) =>
    let names := (tree.below place).filterMap fun (p, entry) =>
      if entry.isDirectory then none else some (Octets.ofText ("/".intercalate p))
    (names.mergeSort (· ≤ ·)).map (under path)
  | _ => [path]

def grep (usualKind : Char) : Tool := fun _ arguments => do
  let usage {α : Type} : Sh α := do
    let name := (← Sh.shell).name
    Sh.complain ("Usage: " ++ name ++ " [OPTION]... PATTERNS [FILE]...\nTry '" ++ name ++
      " --help' for more information.\n")
    leave 2
  let (found, operands) ← ({
    letters := "A:aB:bC:cEe:Ff:GHhIiLlm:noPqRrsTUvwxyzZK:J:"
    names := [("after-context", 'A'), ("before-context", 'B'), ("context", 'C'), ("count", 'c'),
      ("extended-regexp", 'E'), ("fixed-strings", 'F'), ("basic-regexp", 'G'),
      ("regexp", 'e'), ("file", 'f'), ("with-filename", 'H'), ("no-filename", 'h'),
      ("ignore-case", 'i'), ("files-without-match", 'L'), ("files-with-matches", 'l'),
      ("max-count", 'm'), ("line-number", 'n'), ("only-matching", 'o'), ("quiet", 'q'),
      ("silent", 'q'), ("recursive", 'r'), ("no-messages", 's'), ("invert-match", 'v'),
      ("word-regexp", 'w'), ("line-regexp", 'x'), ("include", 'K'), ("exclude", 'J'),
      ("text", 'a')]
    status := 2, ordered := false } : Options).read
      (arguments.filter fun a => !a.startsWith "--color" && !a.startsWith "--colour")
  let given := found.filter fun (c, _) => c == 'e' || c == 'f'
  let (patterns, names) ← if given.isEmpty then
      match operands with
      | pattern :: names => pure ([pattern], names)
      | [] => usage
    else do
      let texts ← given.mapM fun (c, text) => do
        if c = 'e' then return text
        else
          match ← readOperand text with
          | .ok content => return joined (lines content).1 false
          | .error e => fail (unreadable text e) 2
      pure (texts, operands)
  let kind := ((found.map (·.1)).filter ("EFGP".toList.contains ·)).getLast?.getD usualKind
  let pieces := patterns.flatMap fun p => (Lines.splitAt '\n' p.toList).map String.ofList
  let regexes ← pieces.mapM fun piece => do
    if kind = 'F' then return literally piece
    else
      match Regex.ofText (kind == 'E' || kind == 'P') false piece with
      | .ok r => return r
      | .error message => fail message 2
  let either := match regexes with
    | [] => Regex.one fun _ => false
    | r :: rest => rest.foldl Regex.either r
  let regex := if has found 'x' then .both .lineStart (.both either .lineEnd)
    else if has found 'w' then
      .both (.place fun before? _ => !before?.any Regex.isWord)
        (.both either (.place fun _ behind? => !behind?.any Regex.isWord))
    else either
  let number (c : Char) : Option Nat :=
    ((valueOf? found c).orElse fun _ => valueOf? found 'C').bind (·.toNat?)
  let recursive := has found 'r' || has found 'R'
  let names := if names.isEmpty then (if recursive then ["."] else ["-"]) else names
  let tree ← Sh.tree
  let accepted (path : String) : Bool :=
    let name := lastName path
    let fits (c : Char) : List Bool := (found.filter (·.1 == c)).map fun (_, glob) =>
      Pattern.isMatch (glob.toList.map fun c => (c, true)) name
    (!has found 'K' || (fits 'K').any id) && !(fits 'J').any id
  let files := if recursive then names.flatMap fun name =>
      if tree.isDirectory (Octets.toText name) then (filesBelow tree name).filter accepted
      else [name]
    else names
  let s : Searching :=
    { regex, folds := has found 'i' || has found 'y', inverted := has found 'v'
      onlyMatching := has found 'o', numbered := has found 'n'
      titled := !has found 'h' && (has found 'H' || files.length > 1 || recursive)
      counts := has found 'c'
      lists? := if has found 'l' then some true else if has found 'L' then some false else none
      quiet := has found 'q', most? := (valueOf? found 'm').bind (·.toNat?)
      before := (number 'B').getD 0, behind := (number 'A').getD 0 }
  let mut any := false
  let mut troubled := false
  for name in files do
    match ← readOperand name with
    | .ok text =>
      let hit ← searchText s (if name = "-" then "(standard input)" else name) text
      if hit then any := true
    | .error e =>
      if !has found 's' then say (name ++ ": " ++ e.reason)
      troubled := true
  if any && s.quiet then return 0
  else return if troubled then 2 else if any then 0 else 1

/-! ## Paths -/

/-- A test or an action on a path. -/
inductive Probe
  | name (glob : String) (folds : Bool)
  | path (glob : String)
  | kind (letter : Char)
  | empty
  | print (ending : String)
  | delete
  | run (command : List String)
  | not (probe : Probe)
  | truth (value : Bool)

/-- What `find` asks of paths: alternatives of probes, and depths. -/
structure Finding where
  least : Nat
  most? : Option Nat
  alternatives : List (List Probe)
  /-- Whether a probe does something. -/
  acts : Bool
  depthFirst : Bool

def readFinding : Nat → List String → Finding → Sh Finding
  | 0, _, f => return f
  | budget + 1, words, f => do
    let add (f : Finding) (probe : Probe) (acts : Bool) : Finding :=
      let alternatives := match f.alternatives.reverse with
        | [] => [[probe]]
        | last :: rest => (rest.reverse ++ [last ++ [probe]])
      { f with alternatives, acts := f.acts || acts }
    match words with
    | [] => return f
    | "-maxdepth" :: n :: rest => readFinding budget rest { f with most? := n.toNat? }
    | "-mindepth" :: n :: rest => readFinding budget rest { f with least := n.toNat?.getD 0 }
    | "-depth" :: rest => readFinding budget rest { f with depthFirst := true }
    | "-name" :: glob :: rest => readFinding budget rest (add f (.name glob false) false)
    | "-iname" :: glob :: rest => readFinding budget rest (add f (.name glob true) false)
    | "-path" :: glob :: rest => readFinding budget rest (add f (.path glob) false)
    | "-type" :: letter :: rest =>
      readFinding budget rest (add f (.kind (letter.toList.headD 'f')) false)
    | "-empty" :: rest => readFinding budget rest (add f .empty false)
    | "-print" :: rest => readFinding budget rest (add f (.print "\n") true)
    | "-print0" :: rest => readFinding budget rest (add f (.print "\x00") true)
    | "-delete" :: rest => readFinding budget rest (add { f with depthFirst := true } .delete true)
    | "-true" :: rest => readFinding budget rest (add f (.truth true) false)
    | "-false" :: rest => readFinding budget rest (add f (.truth false) false)
    | "-a" :: rest => readFinding budget rest f
    | "-o" :: rest =>
      readFinding budget rest { f with alternatives := f.alternatives ++ [[]] }
    | "-exec" :: rest =>
      let command := rest.takeWhile fun w => w != ";" && w != "+"
      if command.length = rest.length then fail "missing argument to \x60-exec'" 1
      else readFinding budget (rest.drop (command.length + 1)) (add f (.run command) true)
    | "!" :: rest | "-not" :: rest =>
      let inner ← readFinding budget (rest.take (if ["-empty", "-true", "-false", "-print"].contains
        (rest.headD "") then 1 else 2)) ⟨0, none, [], false, false⟩
      let used := if ["-empty", "-true", "-false", "-print"].contains (rest.headD "") then 1 else 2
      match inner.alternatives with
      | [[probe]] => readFinding budget (rest.drop used) (add f (.not probe) inner.acts)
      | _ => fail "expected an expression after '!'" 1
    | word :: rest =>
      if rest.isEmpty ∧ ["-name", "-type", "-maxdepth", "-mindepth", "-path"].contains word then
        fail ("missing argument to \x60" ++ word ++ "'") 1
      else if word.startsWith "-" then fail ("unknown predicate \x60" ++ word ++ "'") 1
      else
        fail ("paths must precede expression: \x60" ++ word ++ "'") 1

def Probe.passes (hooks : Hooks) (environment : List (String × String)) (path : String)
    (entry : Entry) : Probe → Sh Bool
  | name glob folds =>
    let last := lastName path
    let fold (text : String) : String := if folds then text.toLower else text
    return Pattern.isMatch ((fold glob).toList.map fun c => (c, true)) (fold last)
  | Probe.path glob => return Pattern.isMatch (glob.toList.map fun c => (c, true)) path
  | kind letter =>
    match entry with
    | .directory _ => return letter == 'd'
    | .link _ => return letter == 'l'
    | .file _ _ => return letter != 'd' && letter != 'l'
  | empty => do
    match entry with
    | .file content _ => return content.octets == ""
    | .link _ => return false
    | .directory _ =>
      let tree ← Sh.tree
      match tree.find (Octets.toText path) with
      | .ok (place, _) => return (tree.children place).isEmpty
      | .error _ => return false
  | print ending => do
    Sh.print (path ++ ending)
    return true
  | delete => remove false false true false path
  | run command => do
    let words := command.map fun (w : String) => w.replace "\x7b\x7d" path
    match ← Sh.launch hooks (Program.searched environment) environment words with
    | .ok ended => return ended.isSuccess
    | .error e =>
      say (cited (command.headD "") ++ ": " ++ e.reason)
      return false
  | not probe => return !(← probe.passes hooks environment path entry)
  | truth value => return value

def passesAll (hooks : Hooks) (environment : List (String × String)) (path : String)
    (entry : Entry) : List Probe → Sh Bool
  | [] => return true
  | probe :: rest => do
    if ← probe.passes hooks environment path entry then
      passesAll hooks environment path entry rest
    else return false

def passesAny (hooks : Hooks) (environment : List (String × String)) (path : String)
    (entry : Entry) : List (List Probe) → Sh Bool
  | [] => return false
  | probes :: rest => do
    if ← passesAll hooks environment path entry probes then return true
    else passesAny hooks environment path entry rest

def pathsBelow (depthFirst : Bool) (tree : FileTree) : Nat → Nat → String → Place →
    List (String × Place × Nat)
  | 0, _, _, _ => []
  | budget + 1, depth, path, place =>
    let here := (path, place, depth)
    let inside := (tree.children place).flatMap fun name =>
      pathsBelow depthFirst tree budget (depth + 1) (under path (Octets.ofText name))
        (place ++ [name])
    if depthFirst then inside ++ [here] else here :: inside

def find : Tool := fun hooks arguments => do
  let starts := arguments.takeWhile fun a => !a.startsWith "-" && a != "!" && a != "("
  let f ← readFinding (arguments.length + 1) (arguments.drop starts.length)
    ⟨0, none, [], false, false⟩
  let alternatives := if f.alternatives.isEmpty then [[]] else f.alternatives
  let environment ← Sh.environment
  each (if starts.isEmpty then ["."] else starts) fun start => do
    let tree ← Sh.tree
    match tree.look (Octets.toText start) with
    | .error e => because (cited start) e
    | .ok (place, _) =>
      for (path, place, depth) in
          pathsBelow f.depthFirst tree (tree.listing.length + 1) 0 start place do
        if f.least ≤ depth && f.most?.all (depth ≤ ·) then
          match tree.get? place with
          | some entry =>
            let passed ← passesAny hooks environment path entry alternatives
            if passed && !f.acts then Sh.print (path ++ "\n")
          | none => pure ()
      return true

end MapleCompiler.Script.Tool
