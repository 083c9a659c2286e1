import MapleCompiler.Host.Script.Arithmetic
import MapleCompiler.Host.Tool.Basic

/-!
# Programs that pass lines on

These programs read files or the input and write some of what they read:
the first or the last lines, counts, fields, or lines in another order.
-/

namespace MapleCompiler.Script.Tool

/-! ## Whole files -/

/-- A character as `cat` shows it where it is asked to. -/
def visible (c : Char) : String :=
  let n := c.toNat
  if n < 32 then "^" ++ (Char.ofNat (n + 64)).toString
  else if n = 127 then "^?"
  else if n < 128 then c.toString
  else if n < 160 then "M-^" ++ (Char.ofNat (n - 64)).toString
  else if n = 255 then "M-^?"
  else "M-" ++ (Char.ofNat (n - 128)).toString

/-- How `cat` changes lines. -/
structure Shown where
  numbers : Bool
  /-- Whether only lines that are not empty get numbers. -/
  sparing : Bool
  /-- Whether of empty lines in a row only one is kept. -/
  squeezes : Bool
  ends : Bool
  tabs : Bool
  controls : Bool

def aligned (width n : Nat) : String :=
  let digits := toString n
  "".pushn ' ' (width - digits.length) ++ digits

/-- Lines as `cat` changes them, from a number on. -/
def Shown.lines (s : Shown) : Nat → Bool → List String → List String
  | _, _, [] => []
  | number, afterEmpty, line :: rest =>
    let empty := line.isEmpty
    if s.squeezes && empty && afterEmpty then s.lines number true rest
    else
      let counted := s.numbers && !(s.sparing && empty)
      let body := String.join (line.toList.map fun c =>
        if c = '\t' then (if s.tabs then "^I" else "\t")
        else if s.controls then visible c
        else c.toString)
      let text := (if counted then aligned 6 number ++ "\t" else "") ++ body ++
        (if s.ends then "$" else "")
      text :: s.lines (if counted then number + 1 else number) empty rest

/-- The file that a descriptor leads to, and how far it was gone through. -/
def reached? (descriptor : Nat) : Sh (Option (Place × Nat)) := do
  let s ← get
  match (s.shell.descriptors.lookup descriptor).bind fun n => s.channels[n]? with
  | some (.file place offset .append) =>
    match s.machine.tree.get? place with
    | some (.file content _) => return some (place, content.octets.length)
    | _ => return some (place, offset)
  | some (.file place offset _) => return some (place, offset)
  | _ => return none

/-- Whether reading a file would go on into what is being written. -/
def feedsItself (name : String) : Sh Bool := do
  let read? ← if name = "-" then reached? 0
    else do
      match ← Sh.find name with
      | .ok (place, _) => pure (some (place, 0))
      | .error _ => pure none
  match read?, ← reached? 1 with
  | some (place, start), some (written, stop) => return place == written && start < stop
  | _, _ => return false

def cat : Tool := fun _ arguments => do
  let (found, names) ← ({
    letters := "AbeEnstTuv"
    names := [("show-all", 'A'), ("number-nonblank", 'b'), ("show-ends", 'E'), ("number", 'n'),
      ("squeeze-blank", 's'), ("show-tabs", 'T'), ("show-nonprinting", 'v')]
    status := 1, ordered := false } : Options).read arguments
  if (← Sh.outlet? 1).isNone then fail "standard output: Bad file descriptor" 1
  let plain := found.all (·.1 == 'u')
  let mut text := ""
  let mut status := 0
  for name in if names.isEmpty then ["-"] else names do
    if ← feedsItself name then
      say (shown name ++ ": input file is output file")
      status := 1
    else
      match ← readOperand name with
      | .ok more => if plain then Sh.print more else text := text ++ more
      | .error e =>
        say (unreadable name e)
        status := 1
  let shown : Shown :=
    { numbers := has found 'n' || has found 'b', sparing := has found 'b'
      squeezes := has found 's', ends := has found 'E' || has found 'A' || has found 'e'
      tabs := has found 'T' || has found 'A' || has found 't'
      controls := has found 'v' || has found 'A' || has found 'e' || has found 't' }
  let (all, ended) := lines text
  if ended then Sh.print (joined (shown.lines 1 false all) true)
  else
    let unended := joined (shown.lines 1 false all) false
    Sh.print (if shown.ends then String.ofList unended.toList.dropLast else unended)
  if (← Sh.channelOf? 0).isNone && (names.isEmpty || names.contains "-") then
    say "closing standard input: Bad file descriptor"
  return status

def tee : Tool := fun _ arguments => do
  let (found, names) ← ({
    letters := "aip", names := [("append", 'a'), ("ignore-interrupts", 'i')]
    status := 1, ordered := false } : Options).read arguments
  let mut status := 0
  let mut channels := []
  for name in names do
    match ← Sh.openPath name (if has found 'a' then .append else .overwrite) with
    | .ok channel => channels := channels ++ [channel]
    | .error e =>
      say (unreadable name e)
      status := 1
  let text ← Sh.input
  Sh.print text
  for channel in channels do
    Sh.writeChannel channel text
  return status

def tac : Tool := fun _ arguments => do
  let (_, names) ← ({ letters := "", names := [], status := 1, ordered := false } : Options).read
    arguments
  let mut status := 0
  for name in if names.isEmpty then ["-"] else names do
    match ← readOperand name with
    | .ok text =>
      let (all, ended) := lines text
      match all.reverse with
      | last :: rest =>
        Sh.print (last ++ (if ended then "\n" else "") ++ joined rest true)
      | [] => pure ()
    | .error e =>
      say ("failed to open " ++ inQuotes name ++ " for reading: " ++ e.reason)
      status := 1
  return status

def rev : Tool := fun _ arguments => do
  let (text, fine) ← readAll (fun name e => "cannot open " ++ name ++ ": " ++ e.reason) arguments
  let (all, ended) := lines text
  Sh.print (joined (all.map fun line => String.ofList line.toList.reverse) ended)
  return if fine then 0 else 1

/-! ## The first and the last part -/

/-- How much of a file is written. -/
structure Amount where
  bytes : Bool
  /-- Whether all but so much is meant, or all from there on. -/
  otherwise : Bool
  count : Nat

def amountNumber? (text : String) : Option Nat :=
  let digits := text.toList.takeWhile Char.isDigit
  let unit? := match String.ofList (text.toList.drop digits.length) with
    | "" => some 1
    | "b" => some 512
    | "k" | "K" | "KiB" => some 1024
    | "kB" | "KB" => some 1000
    | "m" | "M" | "MiB" => some 1048576
    | _ => none
  if digits = [] then none else unit?.map fun unit => unit * digitsValue 10 digits

def readAmount (bytes : Bool) (signOtherwise : Char) (signSame : Char) (text : String) :
    Sh Amount := do
  let otherwise := text.toList.head? = some signOtherwise
  let digits := if otherwise ∨ text.toList.head? = some signSame then
      String.ofList text.toList.tail else text
  match amountNumber? digits with
  | some count => return ⟨bytes, otherwise, count⟩
  | none =>
    fail ("invalid number of " ++ (if bytes then "bytes" else "lines") ++ ": " ++ cited text) 1

/-- The number of bytes of the first lines of a text. -/
def bytesOfLines : Nat → List Char → Nat
  | 0, _ => 0
  | n + 1, cs =>
    let line := cs.takeWhile (· != '\n')
    match cs.drop line.length with
    | [] => line.length
    | _ :: rest => line.length + 1 + bytesOfLines n rest

def lineCount (text : String) : Nat := (lines text).1.length

def Amount.front (a : Amount) (text : String) : Nat :=
  let count := if a.otherwise then
      (if a.bytes then text.length else lineCount text) - a.count else a.count
  if a.bytes then min count text.length else bytesOfLines count text.toList

/-- How many bytes at the front of a text are left out by an amount at its
end. -/
def Amount.beforeBack (a : Amount) (text : String) : Nat :=
  let all := if a.bytes then text.length else lineCount text
  let skipped := if a.otherwise then a.count - 1 else all - a.count
  if a.bytes then min skipped text.length else bytesOfLines skipped text.toList

/-- An option of the form `-NUMBER` in front of the others, as one that says
what it means. -/
def countOption (letter : String) (arguments : List String) : List String :=
  match arguments with
  | first :: rest =>
    match first.toList with
    | '-' :: cs =>
      let digits := cs.takeWhile Char.isDigit
      if digits ≠ [] then
        match cs.drop digits.length with
        | [] => letter :: String.ofList digits :: rest
        | ['c'] => "-c" :: String.ofList digits :: rest
        | ['l'] => letter :: String.ofList digits :: rest
        | _ => arguments
      else arguments
    | _ => arguments
  | [] => []

/-- Whether the input is a file, in which one can go back. -/
def inputIsFile : Sh Bool := do
  let channels := (← get).channels
  match (← Sh.channelOf? 0).bind fun n => channels[n]? with
  | some (.file _ _ _) => return true
  | _ => return false

def writeParts (found : List (Char × String)) (names : List String)
    (part : String → String) (used : String → Nat) : Sh Nat := do
  let names := if names.isEmpty then ["-"] else names
  let titled := (names.length > 1 || has found 'v') && !has found 'q'
  let mut status := 0
  let mut first := true
  for name in names do
    let complain (e : FileError) : Sh Unit :=
      say ("cannot open " ++ inQuotes name ++ " for reading: " ++ e.reason)
    let text? : Option String ← if name = "-" then do
        let text := (← Sh.waiting? 0).getD ""
        Sh.consume 0 (if ← inputIsFile then used text else text.length)
        pure (some text)
      else do
        match ← readOperand name with
        | .ok text => pure (some text)
        | .error .isDirectory =>
          if titled then Sh.print ((if first then "" else "\n") ++ "==> " ++ name ++ " <==\n")
          first := false
          say ("error reading " ++ inQuotes name ++ ": " ++ FileError.isDirectory.reason)
          pure none
        | .error e =>
          complain e
          pure none
    match text? with
    | some text =>
      if titled then
        Sh.print ((if first then "" else "\n") ++ "==> " ++
          (if name = "-" then "standard input" else name) ++ " <==\n")
      first := false
      Sh.print (part text)
    | none => status := 1
  return status

def head : Tool := fun _ arguments => do
  let (found, names) ← ({
    letters := "c:n:qv"
    names := [("bytes", 'c'), ("lines", 'n'), ("quiet", 'q'), ("silent", 'q'), ("verbose", 'v')]
    status := 1, ordered := false } : Options).read (countOption "-n" arguments)
  let amount ← match (found.reverse.find? fun (c, _) => c == 'c' || c == 'n') with
    | some (c, text) => readAmount (c == 'c') '-' '+' text
    | none => pure ⟨false, false, 10⟩
  writeParts found names (fun text => String.ofList (text.toList.take (amount.front text)))
    amount.front

def tail : Tool := fun _ arguments => do
  let arguments := match arguments with
    | first :: rest =>
      match first.toList with
      | '+' :: d :: _ => if d.isDigit then "-n" :: first :: rest else arguments
      | _ => countOption "-n" arguments
    | [] => []
  let (found, names) ← ({
    letters := "c:n:qvfF"
    names := [("bytes", 'c'), ("lines", 'n'), ("quiet", 'q'), ("silent", 'q'), ("verbose", 'v')]
    status := 1, ordered := false } : Options).read arguments
  let amount ← match (found.reverse.find? fun (c, _) => c == 'c' || c == 'n') with
    | some (c, text) => readAmount (c == 'c') '+' '-' text
    | none => pure ⟨false, false, 10⟩
  writeParts found names (fun text => String.ofList (text.toList.drop (amount.beforeBack text)))
    (·.length)

/-! ## Counting -/

/-- The counts of a file. -/
structure Counts where
  lines : Nat
  words : Nat
  bytes : Nat
  longest : Nat

def wordCount : Bool → List Char → Nat
  | _, [] => 0
  | inside, c :: cs =>
    if isBlank c then wordCount false cs
    else if inside then wordCount true cs
    else 1 + wordCount true cs

def Counts.ofText (text : String) : Counts :=
  { lines := text.toList.count '\n'
    words := wordCount false text.toList
    bytes := text.length
    longest := ((Tool.lines text).1.map (·.length)).foldl max 0 }

def Counts.add (a b : Counts) : Counts :=
  ⟨a.lines + b.lines, a.words + b.words, a.bytes + b.bytes, max a.longest b.longest⟩

def wc : Tool := fun _ arguments => do
  let (found, names) ← ({
    letters := "clLmw"
    names := [("bytes", 'c'), ("lines", 'l'), ("words", 'w'), ("chars", 'm'),
      ("max-line-length", 'L')]
    status := 1, ordered := false } : Options).read arguments
  let wants (c : Char) (byDefault : Bool) : Bool := if found.isEmpty then byDefault else has found c
  let columns (c : Counts) : List Nat :=
    (if wants 'l' true then [c.lines] else []) ++ (if wants 'w' true then [c.words] else []) ++
      (if wants 'm' false then [c.bytes] else []) ++ (if wants 'c' true then [c.bytes] else []) ++
      (if wants 'L' false then [c.longest] else [])
  let operands := if names.isEmpty then ["-"] else names
  let isPipe := !(← inputIsFile)
  let sizes ← operands.mapM fun name => do
    if name = "-" then
      let size := ((← Sh.waiting? 0).getD "").length
      return some (if isPipe then none else some size)
    else
      match ← Sh.find name with
      | .ok (_, .file content _) => return some (some content.octets.length)
      | .ok (_, .directory _) | .ok (_, .link _) => return some none
      | .error _ => return none
  let single := operands.length = 1 ∧ (columns ⟨0, 0, 0, 0⟩).length = 1
  let width := if single ∨ sizes.head?.any Option.isNone then 1
    else
      let total := (sizes.filterMap (Option.bind · id)).foldl (· + ·) 0
      let least := if sizes.any (· == some none) then 7 else 1
      max least (toString total).length
  let line (c : Counts) (name : String) : String :=
    " ".intercalate ((columns c).map (aligned width)) ++
      (if name = "" then "" else " " ++ name) ++ "\n"
  let mut status := 0
  let mut total : Counts := ⟨0, 0, 0, 0⟩
  for name in operands do
    match ← readOperand name with
    | .ok text =>
      let counts := Counts.ofText text
      total := total.add counts
      Sh.print (line counts (if names.isEmpty then "" else name))
    | .error e =>
      say (unreadable name e)
      if e = .isDirectory then Sh.print (line ⟨0, 0, 0, 0⟩ name)
      status := 1
  if operands.length > 1 then Sh.print (line total "total")
  return status

def nl : Tool := fun _ arguments => do
  let (found, names) ← ({
    letters := "b:w:s:v:i:n:"
    names := [("body-numbering", 'b'), ("number-width", 'w'), ("number-separator", 's'),
      ("starting-line-number", 'v'), ("line-increment", 'i')]
    status := 1, ordered := false } : Options).read arguments
  let (text, fine) ← readAll unreadable names
  let everyLine := valueOf? found 'b' = some "a"
  let width := ((valueOf? found 'w').bind (·.toNat?)).getD 6
  let separator := (valueOf? found 's').getD "\t"
  let step := ((valueOf? found 'i').bind (·.toNat?)).getD 1
  let mut number := ((valueOf? found 'v').bind (·.toNat?)).getD 1
  for line in (lines text).1 do
    if everyLine || line ≠ "" then
      let digits := toString number
      let shownNumber := match valueOf? found 'n' with
        | some "ln" => digits ++ "".pushn ' ' (width - digits.length)
        | some "rz" => "".pushn '0' (width - digits.length) ++ digits
        | _ => aligned width number
      Sh.print (shownNumber ++ separator ++ line ++ "\n")
      number := number + step
    else Sh.print ("".pushn ' ' (width + separator.length) ++ line ++ "\n")
  return if fine then 0 else 1

/-! ## Fields and columns -/

/-- The ranges of a list such as `1,3-5,7-`, each with where it begins and
ends. -/
def ranges (kind list : String) : Sh (List (Nat × Option Nat)) :=
  (Lines.splitAt ',' list.toList).mapM fun part => do
    let low := part.takeWhile Char.isDigit
    let invalid {α : Type} : Sh α :=
      if kind = "field" then misuse ("invalid field value " ++ cited (String.ofList part)) 1
      else misuse ("invalid byte/character position " ++ cited (String.ofList part)) 1
    match part.drop low.length with
    | [] =>
      if low = [] then invalid
      let n := digitsValue 10 low
      if n = 0 then
        misuse (if kind = "field" then "fields are numbered from 1"
          else "byte/character positions are numbered from 1") 1
      return (n, some n)
    | '-' :: high =>
      if high.any (!Char.isDigit ·) then invalid
      if low = [] ∧ high = [] then misuse "invalid range with no endpoint: -" 1
      let first := if low = [] then 1 else digitsValue 10 low
      if first = 0 then
        misuse (if kind = "field" then "fields are numbered from 1"
          else "byte/character positions are numbered from 1") 1
      let last? := if high = [] then none else some (digitsValue 10 high)
      if last?.any (· < first) then misuse "invalid decreasing range" 1
      return (first, last?)
    | _ => invalid

def inRanges (ranges : List (Nat × Option Nat)) (n : Nat) : Bool :=
  ranges.any fun (first, last?) => first ≤ n && last?.all (n ≤ ·)

def chosen {α : Type} (test : Nat → Bool) (items : List α) : List α :=
  (items.zipIdx.filter fun (_, i) => test (i + 1)).map (·.1)

def cut : Tool := fun _ arguments => do
  let (found, names) ← ({
    letters := "b:c:d:f:nso:xz"
    names := [("bytes", 'b'), ("characters", 'c'), ("delimiter", 'd'), ("fields", 'f'),
      ("only-delimited", 's'), ("output-delimiter", 'o'), ("complement", 'x')]
    status := 1, ordered := false } : Options).read arguments
  let lists := found.filter fun (c, _) => c == 'b' || c == 'c' || c == 'f'
  let (kind, list) ← match lists with
    | [] => misuse "you must specify a list of bytes, characters, or fields" 1
    | [(c, list)] => pure (c, list)
    | _ => misuse "only one list may be specified" 1
  let delimiter ← match valueOf? found 'd' with
    | none => pure '\t'
    | some text =>
      if kind ≠ 'f' then
        misuse "an input delimiter may be specified only when operating on fields" 1
      else match text.toList with
        | [] => pure '\x00'
        | [c] => pure c
        | _ => misuse "the delimiter must be a single character" 1
  let chosenRanges ← ranges (if kind = 'f' then "field" else "byte") list
  let test (n : Nat) : Bool := inRanges chosenRanges n != has found 'x'
  let (text, fine) ← readAll unreadable names
  let between := (valueOf? found 'o').getD delimiter.toString
  for line in (lines text).1 do
    if kind = 'f' then
      let fields := (Lines.splitAt delimiter line.toList).map String.ofList
      if fields.length ≤ 1 then
        if !has found 's' then Sh.print (line ++ "\n")
      else Sh.print (between.intercalate (chosen test fields) ++ "\n")
    else Sh.print (String.ofList (chosen test line.toList) ++ "\n")
  return if fine then 0 else 1

def sideBySide (delimiters : List Char) : Nat → List (List String) → List String
  | 0, _ => []
  | budget + 1, columns =>
    if columns.all List.isEmpty then []
    else
      let parts := columns.zipIdx.map fun (column, i) =>
        column.headD "" ++ (if i + 1 < columns.length then
          ((delimiters[i % delimiters.length]?).getD '\t').toString else "")
      String.join parts :: sideBySide delimiters budget (columns.map List.tail)

def inARow (delimiters : List Char) (lines : List String) : String :=
  String.join (lines.zipIdx.map fun (line, i) =>
    line ++ (if i + 1 < lines.length then
      ((delimiters[i % delimiters.length]?).getD '\t').toString else ""))

def paste : Tool := fun _ arguments => do
  let (found, names) ← ({
    letters := "d:sz", names := [("delimiters", 'd'), ("serial", 's')]
    status := 1, ordered := false } : Options).read arguments
  let delimiters := match valueOf? found 'd' with
    | none => ['\t']
    | some text => ((text.replace "\\n" "\n").replace "\\t" "\t").toList
  let mut columns := []
  for name in if names.isEmpty then ["-"] else names do
    match ← readOperand name with
    | .ok text => columns := columns ++ [(lines text).1]
    | .error e => fail (unreadable name e) 1
  if has found 's' then
    for column in columns do
      Sh.print (inARow delimiters column ++ "\n")
  else
    let longest := (columns.map List.length).foldl max 0
    Sh.print (joined (sideBySide delimiters (longest + 1) columns) true)
  return 0

def folded (width : Nat) (atBlanks : Bool) : Nat → List Char → List (List Char)
  | 0, cs => [cs]
  | budget + 1, cs =>
    if cs.length ≤ width then [cs]
    else
      let piece := cs.take width
      let kept := piece.reverse.dropWhile (!isBlank ·)
      let piece := if atBlanks ∧ kept ≠ [] then kept.reverse else piece
      piece :: folded width atBlanks budget (cs.drop piece.length)

def fold : Tool := fun _ arguments => do
  let (found, names) ← ({
    letters := "bsw:", names := [("width", 'w'), ("spaces", 's'), ("bytes", 'b')]
    status := 1, ordered := false } : Options).read
      (match arguments with
        | first :: rest =>
          if first.startsWith "-" ∧ first.length > 1 ∧ first.toList.tail.all Char.isDigit then
            ("-w" ++ String.ofList first.toList.tail) :: rest else arguments
        | [] => [])
  let width := max 1 (((valueOf? found 'w').bind (·.toNat?)).getD 80)
  let (text, fine) ← readAll unreadable names
  let (all, ended) := lines text
  let pieces := all.flatMap fun line =>
    (folded width (has found 's') (line.length + 1) line.toList).map String.ofList
  Sh.print (joined pieces ended)
  return if fine then 0 else 1

/-- A line with blanks instead of its tabs. -/
def expandTabs (width : Nat) : Nat → List Char → List Char
  | _, [] => []
  | column, c :: cs =>
    if c = '\t' then
      let n := width - column % width
      List.replicate n ' ' ++ expandTabs width (column + n) cs
    else c :: expandTabs width (column + 1) cs

def expand : Tool := fun _ arguments => do
  let (found, names) ← ({
    letters := "it:", names := [("tabs", 't')], status := 1, ordered := false } : Options).read
      arguments
  let width := max 1 (((valueOf? found 't').bind (·.toNat?)).getD 8)
  let (text, fine) ← readAll unreadable names
  let (all, ended) := lines text
  Sh.print (joined (all.map fun line => String.ofList (expandTabs width 0 line.toList)) ended)
  return if fine then 0 else 1

end MapleCompiler.Script.Tool
