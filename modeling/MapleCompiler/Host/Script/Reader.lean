import MapleCompiler.Host.Script.Command

/-!
# Reading commands

`Input.nextCommand` reads the next command of a script from its text; a script
is read as it runs, so a fault in it shows when the commands before it are
done. `wordParts` reads words, and the functions around it the forms of
commands. They call each other, and each call spends some of a budget that is
set to more than the text can need.

A text that stands in the script, a *document*, is announced by a redirection
and follows after the line; `Reader.readDocuments` reads those that are awaited
when a line ends.
-/

namespace MapleCompiler.Script

/-- A piece of a script. -/
inductive Lexeme
  | endOfFile
  | newline
  | mark (text : String)
  | redirect (descriptor? : Option Nat) (mark : String)
  | keyword (text : String)
  | word (word : Word)

def Lexeme.display : Lexeme → String
  | endOfFile => "end of file"
  | newline => "newline"
  | mark text => "\"" ++ text ++ "\""
  | redirect _ _ => "redirection"
  | keyword text => "\"" ++ text ++ "\""
  | word _ => "word"

/-- A document that is still to be read. -/
structure AwaitedDocument where
  index : Nat
  /-- The line that ends it. -/
  mark : String
  dropsTabs : Bool
  /-- Whether it is taken as it stands. -/
  literal : Bool

/-- A document that is being read in place. -/
structure OpenDocument where
  mark : String
  dropsTabs : Bool
  /-- The text behind it, once its end was found. -/
  behind? : Option (List Char)

/-- A name whose text was put in its place. -/
structure Unfolded where
  name : String
  /-- How many characters are left to read where its text ends. -/
  left : Nat
  /-- Whether its text ends in a blank, so that the word after it may be such a
  name too. -/
  chains : Bool

/-- What a word may be besides itself. -/
structure Heed where
  keywords : Bool
  aliases : Bool

namespace Heed

def words : Heed := ⟨false, false⟩

/-- A word may be a name for a text. -/
def names : Heed := ⟨false, true⟩

/-- A word may be a keyword. -/
def closers : Heed := ⟨true, false⟩

/-- A word may be a keyword or a name for a text. -/
def all : Heed := ⟨true, true⟩

end Heed

/-- **What is left of a script to read**, and what reading has found. -/
structure Input where
  rest : List Char
  line : Nat
  /-- A piece that was read too early. -/
  ahead? : Option Lexeme
  awaited : List AwaitedDocument
  /-- The document that is being read. -/
  document? : Option OpenDocument
  /-- The documents of the script, by their numbers. -/
  documents : Array Word
  /-- Names for texts that are read instead of them. -/
  aliases : List (String × String)
  /-- The names whose texts are being read. -/
  unfolded : List Unfolded

/-- A step of reading. A failure says what is wrong. -/
abbrev Reader (α : Type) : Type := EStateM String Input α

/-- The words that have a meaning of their own where a command may begin. -/
def keywords : List String :=
  ["!", "case", "do", "done", "elif", "else", "esac", "fi", "for", "if", "in", "then", "until",
    "while", "\x7b", "\x7d"]

/-- The marks between commands, longer ones first. -/
def marks : List String := ["&&", "&", "||", "|", ";;", ";", "(", ")"]

/-- The marks of redirections, longer ones first. -/
def redirectMarks : List String := [">>", ">|", ">&", ">", "<<-", "<<", "<&", "<>", "<"]

/-- The first of some marks that a text begins with, and the text behind it. -/
def mark? (marks : List String) (cs : List Char) : Option (String × List Char) :=
  (marks.find? (·.toList.isPrefixOf cs)).map fun m => (m, cs.drop m.length)

def endsWord (c : Char) : Bool := " \t\n|&;<>()".toList.contains c

/-- A text after its blanks and comments, and its line. -/
def skipBlanks : Bool → List Char → Nat → List Char × Nat
  | _, [], line => ([], line)
  | true, c :: cs, line => if c = '\n' then (c :: cs, line) else skipBlanks true cs line
  | false, '\\' :: '\n' :: cs, line => skipBlanks false cs (line + 1)
  | false, c :: cs, line =>
    if c = ' ' ∨ c = '\t' then skipBlanks false cs line
    else if c = '#' then skipBlanks true cs line
    else (c :: cs, line)

/-- Where the parts of a word stand, which says where they end. -/
inductive Setting
  | bare
  | quotes
  /-- After the name of a parameter, up to a brace. If all of it is quoted, more
  quotes around a brace inside of it keep it from ending the text. -/
  | braces (quoted inner : Bool)
  /-- To the end of the text. -/
  | document
  /-- Up to two parentheses, inside of `depth` others. -/
  | arithmetic (depth : Nat)

def Setting.isQuoted : Setting → Bool
  | bare => false
  | braces quoted _ => quoted
  | _ => true

/-- Parts of a word, last one first, with more text. -/
def addText (done : Word) (text : String) (quoted : Bool) : Word :=
  match done with
  | .text before q :: rest =>
    if q = quoted then .text (before ++ text) q :: rest else .text text quoted :: done
  | _ => .text text quoted :: done

/-- The name of a parameter in braces, whether its length is asked for, and the
text behind it. -/
def bracedName : List Char → Option (String × Bool × List Char)
  | '#' :: cs =>
    match cs with
    | [] => none
    | c :: rest =>
      if c = '\x7d' then some ("#", false, cs)
      else if isNameChar c then
        let name := cs.takeWhile (if c.isDigit then Char.isDigit else isNameChar)
        some (String.ofList name, true, cs.drop name.length)
      else if isSpecialParameter c ∧ rest.head? = some '\x7d' then some (c.toString, true, rest)
      else some ("#", false, cs)
  | c :: cs =>
    if isNameStart c then
      let name := (c :: cs).takeWhile isNameChar
      some (String.ofList name, false, (c :: cs).drop name.length)
    else if c.isDigit then
      let name := (c :: cs).takeWhile Char.isDigit
      some (String.ofList name, false, (c :: cs).drop name.length)
    else if isSpecialParameter c then some (c.toString, false, cs)
    else none
  | [] => none

/-- The change of a value that a text after a name asks for, up to its word,
and the text behind it. The word is given to what is returned. -/
def bracedChange : List Char → Option ((Word → Change) × Bool × List Char)
  | ':' :: '-' :: cs => some (.fallback true, false, cs)
  | ':' :: '=' :: cs => some (.assign true, false, cs)
  | ':' :: '?' :: cs => some (.demand true, false, cs)
  | ':' :: '+' :: cs => some (.instead true, false, cs)
  | '-' :: cs => some (.fallback false, false, cs)
  | '=' :: cs => some (.assign false, false, cs)
  | '?' :: cs => some (.demand false, false, cs)
  | '+' :: cs => some (.instead false, false, cs)
  | '%' :: '%' :: cs => some (.trim .back true, true, cs)
  | '%' :: cs => some (.trim .back false, true, cs)
  | '#' :: '#' :: cs => some (.trim .front true, true, cs)
  | '#' :: cs => some (.trim .front false, true, cs)
  | _ => none

namespace Reader

def unexpected {α : Type} (lexeme : Lexeme) (expected? : Option String) : Reader α :=
  throw (lexeme.display ++ " unexpected" ++
    match expected? with
    | some expected => " (expecting \"" ++ expected ++ "\")"
    | none => "")

/-- Takes the text to be `cs` from here on. -/
def setRest (cs : List Char) : Reader Unit := modify fun s => { s with rest := cs }

def advanceTo (cs : List Char) : Reader Unit := modify fun s =>
  let passed := s.rest.take (s.rest.length - cs.length)
  { s with rest := cs, line := s.line + passed.count '\n' }

/-- A text after the line ends at its front that are escaped, and how many they
are. -/
def joinedLines : List Char → List Char × Nat
  | '\\' :: '\n' :: cs =>
    let (rest, count) := joinedLines cs
    (rest, count + 1)
  | cs => (cs, 0)

/-- The name at the front of a text, in which line ends may be escaped; the text
behind it, and how many such line ends there are. -/
def nameAt : List Char → List Char × List Char × Nat
  | '\\' :: '\n' :: cs =>
    let (name, rest, count) := nameAt cs
    (name, rest, count + 1)
  | c :: cs =>
    if isNameChar c then
      let (name, rest, count) := nameAt cs
      (c :: name, rest, count)
    else ([], c :: cs, 0)
  | [] => ([], [], 0)

def joinLines : Reader Unit := modify fun s =>
  let (rest, count) := joinedLines s.rest
  { s with rest, line := s.line + count }

def beginLine : Reader Unit := do
  let s ← get
  match s.document? with
  | none => return ()
  | some doc =>
    joinLines
    let s ← get
    let rest := if doc.dropsTabs then s.rest.dropWhile (· == '\t') else s.rest
    let line := rest.takeWhile (· != '\n')
    if line = doc.mark.toList then
      let behind := rest.drop line.length
      set { s with
        rest := []
        line := s.line + (behind.take 1).length
        document? := some { doc with behind? := some (behind.drop 1) } }
    else set { s with rest }

def pass (c : Char) (cs : List Char) : Reader Unit := do
  modify fun s => { s with rest := cs, line := if c = '\n' then s.line + 1 else s.line }
  if c = '\n' then beginLine

def putBack (lexeme : Lexeme) : Reader Unit := modify fun s => { s with ahead? := some lexeme }

def documentText (mark : List Char) (dropsTabs : Bool) :
    Nat → List Char → List Char → List Char × List Char
  | 0, done, cs => (done, cs)
  | _, done, [] => (done, [])
  | budget + 1, done, cs =>
    let whole := cs.takeWhile (· != '\n')
    let behind := cs.drop whole.length
    let line := if dropsTabs then whole.dropWhile (· == '\t') else whole
    if line = mark then (done, behind.drop 1)
    else documentText mark dropsTabs budget (done ++ line ++ behind.take 1) (behind.drop 1)

end Reader

/-- The first character of an old-style command in quotes is kept or dropped:
the text up to the closing mark, with backslashes before special characters
gone, and the text behind it. -/
def backquoted (quoted : Bool) : List Char → Option (List Char × List Char)
  | [] => none
  | '\x60' :: cs => some ([], cs)
  | '\\' :: c :: cs =>
    (backquoted quoted cs).map fun (text, rest) =>
      if c = '\n' then (text, rest)
      else if c = '\\' ∨ c = '\x60' ∨ c = '$' ∨ (quoted ∧ c = '"') then (c :: text, rest)
      else ('\\' :: c :: text, rest)
  | c :: cs => (backquoted quoted cs).map fun (text, rest) => (c :: text, rest)

/-- The mark of a document at the front of a text, without its quotes; whether it
has any; and the text behind it. Inside of `quote`, if that is given. None if the
text ends inside of quotes. -/
def documentMark : (quote : Option Char) → List Char → Option (List Char × Bool × List Char)
  | none, [] => some ([], false, [])
  | some _, [] => none
  | none, '\\' :: c :: cs =>
    (documentMark none cs).map fun (text, quoted, rest) =>
      if c = '\n' then (text, quoted, rest) else (c :: text, true, rest)
  | some '"', '\\' :: c :: cs =>
    (documentMark (some '"') cs).map fun (text, _, rest) =>
      if c = '\n' then (text, true, rest)
      else if "$\x60\"\\".toList.contains c then (c :: text, true, rest)
      else ('\\' :: c :: text, true, rest)
  | some q, c :: cs =>
    if c = q then (documentMark none cs).map fun (text, _, rest) => (text, true, rest)
    else (documentMark (some q) cs).map fun (text, _, rest) => (c :: text, true, rest)
  | none, c :: cs =>
    if c = '\'' ∨ c = '"' then
      (documentMark (some c) cs).map fun (text, _, rest) => (text, true, rest)
    else if endsWord c then some ([], false, c :: cs)
    else (documentMark none cs).map fun (text, quoted, rest) => (c :: text, quoted, rest)

/-- How a list of commands ends. -/
inductive ListForm
  | line
  /-- At a word or mark that closes a list; it has at least one command. -/
  | block
  /-- The same, and it may be empty. -/
  | loose
deriving DecidableEq

def Lexeme.closesList : Lexeme → Bool
  | .endOfFile => true
  | .mark text => text == ")" || text == ";;"
  | .keyword text =>
    ["do", "done", "elif", "else", "esac", "fi", "then", "\x7d"].contains text
  | _ => false

def joinCommands : Option Command → Command → Command
  | none, command => command
  | some before, command => .sequence before command

def specialBuiltins : List String :=
  [".", ":", "break", "continue", "eval", "exec", "exit", "export", "local", "readonly", "return",
    "set", "shift", "times", "trap", "unset"]

mutual

/-- **The parts of a word** from here to its end, after the parts in `done`, last
one first. -/
def wordParts : Nat → Setting → Word → Reader Word
  | 0, _, _ => throw "word too long"
  | budget + 1, setting, done => do
    match (← get).rest with
    | [] =>
      match setting with
      | .bare | .document => return done.reverse
      | .quotes => throw "Unterminated quoted string"
      | .braces true _ =>
        throw (if (← get).document?.isSome then "Missing '\x7d'" else "Unterminated quoted string")
      | .braces false _ => throw "Missing '\x7d'"
      | .arithmetic _ => throw "Missing '))'"
    | c :: cs =>
      let addChar (setting : Setting) : Reader Word := do
        Reader.pass c cs
        wordParts budget setting (addText done c.toString setting.isQuoted)
      match setting, c with
      | .quotes, '"' =>
        Reader.setRest cs
        return done.reverse
      | .braces _ false, '\x7d' =>
        Reader.setRest cs
        return done.reverse
      | .arithmetic depth, '(' => addChar (.arithmetic (depth + 1))
      | .arithmetic (depth + 1), ')' => addChar (.arithmetic depth)
      | .arithmetic 0, ')' =>
        match cs with
        | ')' :: rest =>
          Reader.setRest rest
          return done.reverse
        | _ => addChar setting
      | _, '\\' =>
        match cs with
        | [] => addChar setting
        | '\n' :: rest =>
          Reader.advanceTo rest
          wordParts budget setting done
        | e :: rest =>
          Reader.advanceTo rest
          if !setting.isQuoted then wordParts budget setting (addText done e.toString true)
          else
            let inDocument := match setting with
              | .document => true
              | _ => false
            let inBraces := match setting with
              | .braces _ _ => true
              | _ => false
            if e == '$' || e == '\x60' || e == '\\' || e == '"' && !inDocument ||
                e == '\x7d' && inBraces then
              wordParts budget setting (addText done e.toString true)
            else wordParts budget setting (addText done ("\\" ++ e.toString) true)
      | _, '$' =>
        Reader.setRest cs
        match ← dollarPart budget setting.isQuoted with
        | some part => wordParts budget setting (part :: done)
        | none => wordParts budget setting (addText done "$" setting.isQuoted)
      | _, '\x60' =>
        match backquoted setting.isQuoted cs with
        | none =>
          Reader.advanceTo []
          throw "EOF in backquote substitution"
        | some (text, rest) =>
          Reader.advanceTo rest
          let outer ← get
          set { outer with
            rest := text, line := 1, ahead? := none, awaited := [], document? := none }
          let command? ← commandList budget .loose none false
          modify fun inner => { outer with documents := inner.documents }
          let command := command?.getD (.simple 1 [] [] [])
          wordParts budget setting (.output command setting.isQuoted :: done)
      | .braces true inner, '"' =>
        Reader.setRest cs
        wordParts budget (.braces true (!inner)) done
      | .document, _ | .arithmetic _, _ => addChar setting
      | _, '"' =>
        Reader.setRest cs
        let inner ← wordParts budget .quotes []
        let inner := if inner.isEmpty then [.text "" true] else inner
        wordParts budget setting (inner.reverse ++ done)
      | .quotes, _ | .braces true _, _ => addChar setting
      | _, '\'' =>
        let text := cs.takeWhile (· != '\'')
        match cs.drop text.length with
        | [] =>
          Reader.advanceTo []
          throw "Unterminated quoted string"
        | _ :: rest =>
          Reader.advanceTo rest
          wordParts budget setting (.text (String.ofList text) true :: done)
      | .bare, c => if endsWord c then return done.reverse else addChar setting
      | _, _ => addChar setting

/-- The part that a dollar sign begins; none if it stands for itself. -/
def dollarPart : Nat → Bool → Reader (Option Part)
  | 0, _ => throw "word too long"
  | budget + 1, quoted => do
    Reader.joinLines
    match (← get).rest with
    | '(' :: '(' :: cs =>
      Reader.setRest cs
      return some (.arithmetic (← wordParts budget (.arithmetic 0) []) quoted)
    | '(' :: cs =>
      let outer ← get
      set { outer with rest := cs, awaited := [], document? := none }
      let command? ← commandList budget .loose none false
      match ← nextLexeme budget false .all with
      | .mark ")" =>
        modify fun s => { s with awaited := outer.awaited, document? := outer.document? }
        return some (.output (command?.getD (.simple 1 [] [] [])) quoted)
      | other => Reader.unexpected other (some ")")
    | '\x7b' :: cs => return some (← bracedPart budget quoted cs)
    | c :: cs =>
      if isNameStart c then
        let (name, rest, count) := Reader.nameAt (c :: cs)
        modify fun s => { s with rest, line := s.line + count }
        return some (.parameter (String.ofList name) .none quoted)
      else if isSpecialParameter c || c.isDigit then
        Reader.setRest cs
        return some (.parameter c.toString .none quoted)
      else return none
    | [] => return none

/-- The parameter in braces that begins with `cs`. -/
def bracedPart : Nat → Bool → List Char → Reader Part
  | 0, _, _ => throw "word too long"
  | budget + 1, quoted, cs => do
    let invalid (name : String) (cs : List Char) : Reader Part := do
      Reader.setRest (if cs.head? = some '\n' then cs.tail else cs)
      let _ ← wordParts budget (.braces quoted false) []
      return .parameter name .invalid quoted
    match bracedName cs with
    | none => invalid "" cs
    | some (name, true, rest) =>
      match rest with
      | '\x7d' :: behind =>
        Reader.setRest behind
        return .parameter name .length quoted
      | _ => invalid name rest
    | some (name, false, rest) =>
      match rest with
      | '\x7d' :: behind =>
        Reader.setRest behind
        return .parameter name .none quoted
      | _ =>
        match bracedChange rest with
        | none => invalid name rest
        | some (change, trims, behind) =>
          Reader.setRest behind
          let word ← wordParts budget (.braces (quoted && !trims) false) []
          return .parameter name (change word) quoted

/-- **The next piece.** Line ends are passed over if `passes` holds, and `heed`
says what words may be. -/
def nextLexeme : Nat → Bool → Heed → Reader Lexeme
  | 0, _, _ => throw "script too long"
  | budget + 1, passes, heed => do
    let s ← get
    match s.ahead? with
    | some lexeme =>
      set { s with ahead? := none }
      finishLexeme budget passes heed lexeme
    | none =>
      let (rest, line) := skipBlanks false s.rest s.line
      set { s with rest, line }
      match rest with
      | [] => return .endOfFile
      | '\n' :: cs =>
        Reader.advanceTo cs
        finishLexeme budget passes heed .newline
      | c :: cs =>
        match mark? marks rest with
        | some (mark, behind) =>
          Reader.setRest behind
          return .mark mark
        | none =>
          match mark? redirectMarks rest, mark? redirectMarks cs with
          | some (mark, behind), _ =>
            Reader.setRest behind
            return .redirect none mark
          | none, some (mark, behind) =>
            if c.isDigit then
              Reader.setRest behind
              return .redirect (some (c.toNat - '0'.toNat)) mark
            else wordLexeme budget passes heed s.rest.length
          | none, none => wordLexeme budget passes heed s.rest.length

/-- The word that stands here, `before` characters before the end when the piece
before it had been read. -/
def wordLexeme : Nat → Bool → Heed → Nat → Reader Lexeme
  | 0, _, _, _ => throw "script too long"
  | budget + 1, passes, heed, before => do
    let word ← wordParts budget .bare []
    let s ← get
    let extended := s.unfolded.any fun u =>
      u.chains && u.left < before && s.rest.length ≤ u.left
    finishLexeme budget passes { heed with aliases := heed.aliases || extended } (.word word)

/-- A piece that was read, or one after it: see `nextLexeme`. -/
def finishLexeme : Nat → Bool → Heed → Lexeme → Reader Lexeme
  | 0, _, _, _ => throw "script too long"
  | budget + 1, passes, heed, lexeme => do
    match lexeme with
    | .newline =>
      if passes then
        readDocuments budget
        nextLexeme budget passes heed
      else return .newline
    | .word word =>
      match word.bare? with
      | some text =>
        let s ← get
        let unfolded := s.unfolded.filter (·.left ≤ s.rest.length)
        if heed.keywords && keywords.contains text then return .keyword text
        else
          match if heed.aliases then s.aliases.lookup text else none with
          | some value =>
            if unfolded.any (·.name == text) then return lexeme
            let chains := value.toList.getLast?.any fun c => c == ' ' || c == '\t'
            set { s with
              rest := value.toList ++ s.rest
              unfolded := ⟨text, s.rest.length, chains⟩ :: unfolded }
            nextLexeme budget passes heed
          | none => return lexeme
      | none => return lexeme
    | other => return other

/-- Reads the documents that are awaited. One that is not taken as it stands ends
at its mark only where a line of its own begins, and not behind a line end that is
escaped or inside of a command. -/
def readDocuments : Nat → Reader Unit
  | 0 => throw "script too long"
  | budget + 1 => do
    let s ← get
    match s.awaited with
    | [] => return ()
    | doc :: others =>
      if doc.literal then
        let (text, rest) :=
          Reader.documentText doc.mark.toList doc.dropsTabs (s.rest.length + 1) [] s.rest
        let passed := s.rest.take (s.rest.length - rest.length)
        set { s with
          rest
          line := s.line + passed.count '\n'
          awaited := others
          documents := s.documents.setIfInBounds doc.index [Part.text (String.ofList text) true] }
      else
        set { s with awaited := [], document? := some ⟨doc.mark, doc.dropsTabs, none⟩ }
        Reader.beginLine
        let word ← wordParts budget .document []
        modify fun inner => { inner with
          rest := (inner.document?.bind (·.behind?)).getD []
          awaited := others
          document? := s.document?
          documents := inner.documents.setIfInBounds doc.index word }
      readDocuments budget

def redirection : Nat → Option Nat → String → Reader Redirect
  | 0, _, _ => throw "script too long"
  | budget + 1, descriptor?, mark => do
    let input := descriptor?.getD 0
    let output := descriptor?.getD 1
    if mark = "<<" ∨ mark = "<<-" then
      let s ← get
      let (rest, line) := skipBlanks false s.rest s.line
      match documentMark none rest with
      | none =>
        set { s with rest, line }
        Reader.advanceTo []
        throw "Unterminated quoted string"
      | some ([], false, _) => Reader.unexpected (← nextLexeme budget false .words) none
      | some (text, quoted, behind) =>
        set { s with rest, line }
        Reader.advanceTo behind
        let index := s.documents.size
        modify fun s => { s with
          documents := s.documents.push []
          awaited := s.awaited ++ [⟨index, String.ofList text, mark == "<<-", quoted⟩] }
        return .document input index
    match ← nextLexeme budget false .words with
    | .word word =>
      match mark with
      | "<&" => return .share input word
      | ">&" => return .share output word
      | "<" => return .file input .read word
      | "<>" => return .file input .both word
      | ">>" => return .file output .append word
      | ">|" => return .file output .overwrite word
      | _ => return .file output .write word
    | other => Reader.unexpected other none

def redirections : Nat → List Redirect → Reader (List Redirect)
  | 0, _ => throw "script too long"
  | budget + 1, done => do
    match ← nextLexeme budget false .all with
    | .redirect descriptor? mark =>
      let redirect ← redirection budget descriptor? mark
      redirections budget (done ++ [redirect])
    | other =>
      Reader.putBack other
      return done

/-- **A list of commands** in a form, after those in `done`. -/
def commandList : Nat → ListForm → Option Command → Bool → Reader (Option Command)
  | 0, _, _, _ => throw "script too long"
  | budget + 1, form, done, begun => do
    match ← nextLexeme budget (form != .line) .all with
    | .newline =>
      readDocuments budget
      return done
    | .endOfFile =>
      readDocuments budget
      Reader.putBack .endOfFile
      return done
    | first =>
      Reader.putBack first
      if (form == .loose || form == .block && begun) && first.closesList then return done
      else
        let command ← andOr budget
        match ← nextLexeme budget false .words with
        | .mark "&" =>
          commandList budget form (some (joinCommands done (.background command))) true
        | .mark ";" => commandList budget form (some (joinCommands done command)) true
        | .newline =>
          Reader.putBack .newline
          commandList budget form (some (joinCommands done command)) true
        | .endOfFile =>
          Reader.putBack .endOfFile
          commandList budget form (some (joinCommands done command)) true
        | other =>
          if form == .line then Reader.unexpected other none
          else
            Reader.putBack other
            return some (joinCommands done command)

def block : Nat → Reader Command
  | 0 => throw "script too long"
  | budget + 1 => return (← commandList budget .block none false).getD (.simple 1 [] [] [])

/-- Pipes with `&&` and `||` between them. -/
def andOr : Nat → Reader Command
  | 0 => throw "script too long"
  | budget + 1 => do
    let first ← pipeline budget false
    andOrRest budget first

def andOrRest : Nat → Command → Reader Command
  | 0, _ => throw "script too long"
  | budget + 1, first => do
    match ← nextLexeme budget false .words with
    | .mark "&&" =>
      let second ← pipeline budget true
      andOrRest budget (.both first second)
    | .mark "||" =>
      let second ← pipeline budget true
      andOrRest budget (.either first second)
    | other =>
      Reader.putBack other
      return first

/-- Commands with `|` between them, perhaps after a `!`. -/
def pipeline : Nat → Bool → Reader Command
  | 0, _ => throw "script too long"
  | budget + 1, passes => do
    match ← nextLexeme budget passes .all with
    | .keyword "!" => return .negate (← pipe budget false)
    | other =>
      Reader.putBack other
      pipe budget passes

def pipe : Nat → Bool → Reader Command
  | 0, _ => throw "script too long"
  | budget + 1, passes => do
    let first ← command budget passes
    match ← pipeRest budget [] with
    | [] => return first
    | others => return .pipe (first :: others)

def pipeRest : Nat → List Command → Reader (List Command)
  | 0, _ => throw "script too long"
  | budget + 1, done => do
    match ← nextLexeme budget false .words with
    | .mark "|" =>
      let next ← command budget true
      pipeRest budget (done ++ [next])
    | other =>
      Reader.putBack other
      return done

/-- Passes over a keyword that has to stand here. -/
def expectKeyword : Nat → String → Reader Unit
  | 0, _ => throw "script too long"
  | budget + 1, text => do
    match ← nextLexeme budget true .all with
    | .keyword found =>
      if found = text then return () else Reader.unexpected (.keyword found) (some text)
    | other => Reader.unexpected other (some text)

/-- **A command.** -/
def command : Nat → Bool → Reader Command
  | 0, _ => throw "script too long"
  | budget + 1, passes => do
    let line := (← get).line
    let close (closing : String) (body : Command) : Reader Command := do
      expectKeyword budget closing
      return body
    let finish (body : Command) : Reader Command := do
      match ← redirections budget [] with
      | [] => return body
      | redirects => return .redirected line body redirects
    match ← nextLexeme budget passes .all with
    | .keyword "if" => finish (← close "fi" (← conditional budget))
    | .keyword "while" => finish (← loop budget true)
    | .keyword "until" => finish (← loop budget false)
    | .keyword "for" => finish (← forLoop budget line)
    | .keyword "case" => finish (← selection budget line)
    | .keyword "\x7b" => finish (← close "\x7d" (← block budget))
    | .mark "(" =>
      let body ← block budget
      match ← nextLexeme budget true .all with
      | .mark ")" => return .subshell line body (← redirections budget [])
      | other => Reader.unexpected other (some ")")
    | .word word =>
      Reader.putBack (.word word)
      simpleCommand budget (← get).line [] [] []
    | .redirect descriptor? mark =>
      Reader.putBack (.redirect descriptor? mark)
      simpleCommand budget (← get).line [] [] []
    | other => Reader.unexpected other none

/-- A condition after its `if` or `elif`, up to its `fi`. -/
def conditional : Nat → Reader Command
  | 0 => throw "script too long"
  | budget + 1 => do
    let test ← block budget
    expectKeyword budget "then"
    let yes ← block budget
    match ← nextLexeme budget true .all with
    | .keyword "elif" => return .choice test yes (some (← conditional budget))
    | .keyword "else" => return .choice test yes (some (← block budget))
    | other =>
      Reader.putBack other
      return .choice test yes none

/-- A loop after its first word. -/
def loop : Nat → Bool → Reader Command
  | 0, _ => throw "script too long"
  | budget + 1, goOn => do
    let test ← block budget
    expectKeyword budget "do"
    let body ← block budget
    expectKeyword budget "done"
    return .loop goOn test body

def wordList : Nat → List Word → Reader (List Word)
  | 0, _ => throw "script too long"
  | budget + 1, done => do
    match ← nextLexeme budget false .words with
    | .word word => wordList budget (done ++ [word])
    | .newline =>
      Reader.putBack .newline
      return done
    | .mark ";" => return done
    | other => Reader.unexpected other none

/-- A loop over words, after its `for`. -/
def forLoop : Nat → Nat → Reader Command
  | 0, _ => throw "script too long"
  | budget + 1, line => do
    let name? ← match ← nextLexeme budget false .words with
      | .word word => pure word.bare?
      | _ => pure none
    match name? with
    | none => throw "Bad for loop variable"
    | some name =>
      if !isName name then throw "Bad for loop variable"
      let words? ← match ← nextLexeme budget true .all with
        | .keyword "in" => do pure (some (← wordList budget []))
        | .mark ";" => pure none
        | other => do
          Reader.putBack other
          pure none
      expectKeyword budget "do"
      let body ← block budget
      expectKeyword budget "done"
      return .forEach line name words? body

/-- The patterns of a case, of which `lexeme` is the first, up to its
parenthesis. -/
def patterns : Nat → Lexeme → List Word → Reader (List Word)
  | 0, _, _ => throw "script too long"
  | budget + 1, lexeme, done => do
    let done ← match lexeme with
      | .word word => pure (done ++ [word])
      | .keyword text => pure (done ++ [[.text text false]])
      | other => Reader.unexpected other (some ")")
    match ← nextLexeme budget false .words with
    | .mark "|" =>
      let next ← nextLexeme budget false .words
      patterns budget next done
    | .mark ")" => return done
    | other => Reader.unexpected other (some ")")

/-- The cases of a selection up to its `esac`. -/
def cases : Nat → List (List Word × Option Command) → Reader (List (List Word × Option Command))
  | 0, _ => throw "script too long"
  | budget + 1, done => do
    match ← nextLexeme budget true .closers with
    | .keyword "esac" => return done
    | first =>
      let first ← match first with
        | .mark "(" => nextLexeme budget false .words
        | other => pure other
      let words ← patterns budget first []
      let body? ← commandList budget .loose none false
      match ← nextLexeme budget true .all with
      | .keyword "esac" => return done ++ [(words, body?)]
      | .mark ";;" => cases budget (done ++ [(words, body?)])
      | other => Reader.unexpected other (some ";;")

def selection : Nat → Nat → Reader Command
  | 0, _ => throw "script too long"
  | budget + 1, line => do
    match ← nextLexeme budget false .words with
    | .word subject =>
      expectKeyword budget "in"
      return .select line subject (← cases budget [])
    | other => Reader.unexpected other (some "word")

def simpleCommand : Nat → Nat → List (String × Word) → List Word → List Redirect → Reader Command
  | 0, _, _, _, _ => throw "script too long"
  | budget + 1, line, assignments, words, redirects => do
    match ← nextLexeme budget false (if words.isEmpty then .names else .words) with
    | .word word =>
      match if words.isEmpty then word.assignment? else none with
      | some assignment =>
        simpleCommand budget line (assignments ++ [assignment]) words redirects
      | none => simpleCommand budget line assignments (words ++ [word]) redirects
    | .redirect descriptor? mark =>
      let redirect ← redirection budget descriptor? mark
      simpleCommand budget line assignments words (redirects ++ [redirect])
    | .mark "(" =>
      match words, assignments, redirects with
      | [word], [], [] =>
        match ← nextLexeme budget false .words with
        | .mark ")" =>
          match word.bare? with
          | some name =>
            if !isName name || specialBuiltins.contains name then throw "Bad function name"
            return .define name (← command budget true)
          | none => throw "Bad function name"
        | other => Reader.unexpected other (some ")")
      | _, _, _ =>
        Reader.putBack (.mark "(")
        return .simple line assignments words redirects
    | other =>
      Reader.putBack other
      return .simple line assignments words redirects

end

namespace Input

def ofText (text : String) (documents : Array Word) (aliases : List (String × String)) : Input :=
  ⟨text.toList, 1, none, [], none, documents, aliases, []⟩

def budget (input : Input) : Nat := 16 * input.rest.length + 1000

/-- What reading the next command gives. -/
inductive Outcome
  | command (command : Command)
  /-- A line without a command. -/
  | blank
  | done
  | fault (message : String)

/-- **Reads the next command of a script.** -/
def nextCommand (input : Input) : Outcome × Input :=
  let input := { input with ahead? := none, awaited := [], document? := none }
  match (commandList input.budget .line none false).run input with
  | .ok (some command) rest => (.command command, rest)
  | .ok none rest =>
    match rest.ahead? with
    | some .endOfFile => (.done, rest)
    | _ => (.blank, rest)
  | .error message rest => (.fault message, rest)

end Input

end MapleCompiler.Script
