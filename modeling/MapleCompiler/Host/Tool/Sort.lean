import MapleCompiler.Host.Tool.Lines

/-!
# Programs that order and compare lines

`sort` orders lines by keys, which are parts of them; `uniq` drops lines that
are repeated; `comm`, `cmp` and `diff` compare files.
-/

namespace MapleCompiler.Script.Tool

/-! ## Sorting -/

/-- A number at the front of a text, as a count of millionths. -/
def leadingNumber (text : List Char) : Int :=
  let cs := text.dropWhile isBlank
  let negative := cs.head? = some '-'
  let cs := if negative then cs.tail else cs
  let whole := cs.takeWhile Char.isDigit
  let behind := cs.drop whole.length
  let places := if behind.head? = some '.' then (behind.tail.takeWhile Char.isDigit).take 6 else []
  let n : Int := digitsValue 10 (whole ++ places ++ List.replicate (6 - places.length) '0')
  if negative then -n else n

/-- How texts are compared. -/
structure Rule where
  numeric : Bool
  /-- Whether the case of letters does not count. -/
  folds : Bool
  /-- Whether only letters, digits and blanks count. -/
  dictionary : Bool
  /-- Whether blanks at the front do not count. -/
  skipsBlanks : Bool
  reversed : Bool
deriving DecidableEq

def Rule.ofLetters (letters : List Char) : Rule :=
  { numeric := letters.any ("nghV".toList.contains ·)
    folds := letters.contains 'f', dictionary := letters.contains 'd'
    skipsBlanks := letters.contains 'b', reversed := letters.contains 'r' }

def compareBytes : List Char → List Char → Ordering
  | [], [] => .eq
  | [], _ :: _ => .lt
  | _ :: _, [] => .gt
  | a :: as, b :: bs => if a < b then .lt else if b < a then .gt else compareBytes as bs

def Rule.compare (rule : Rule) (a b : List Char) : Ordering :=
  let view (cs : List Char) : List Char :=
    let cs := if rule.skipsBlanks then cs.dropWhile isBlank else cs
    let cs := if rule.dictionary then cs.filter fun c => c.isAlphanum || isBlank c else cs
    if rule.folds then cs.map Char.toUpper else cs
  let result := if rule.numeric then Ord.compare (leadingNumber a) (leadingNumber b)
    else compareBytes (view a) (view b)
  if rule.reversed then result.swap else result

/-- A place in a line: a field, and a character of it. -/
structure Spot where
  field : Nat
  offset : Nat
  letters : List Char

/-- Reads a place; what is behind it is given too. -/
def Spot.read (cs : List Char) (problem : String) : Sh (Spot × List Char) := do
  let number (cs : List Char) : Sh (Nat × List Char) := do
    let digits := cs.takeWhile Char.isDigit
    if digits = [] then
      fail (problem ++ ": invalid count at start of " ++ cited (String.ofList cs)) 2
    return (digitsValue 10 digits, cs.drop digits.length)
  let (field, rest) ← number cs
  let (offset, rest) ← match rest with
    | '.' :: rest => number rest
    | _ => pure (0, rest)
  let letters := rest.takeWhile Char.isAlpha
  return (⟨field, offset, letters⟩, rest.drop letters.length)

/-- A part of lines that they are compared by. -/
structure Key where
  start : Spot
  stop? : Option Spot
  rule : Rule

/-- Reads a key; without letters of its own it is compared as all others are. -/
def Key.read (text : String) (common : Rule) : Sh Key := do
  let (start, rest) ← Spot.read text.toList "invalid number at field start"
  if start.field = 0 then
    fail ("field number is zero: invalid field specification " ++ cited text) 2
  let (stop?, rest) ← match rest with
    | ',' :: rest => do
      let (stop, rest) ← Spot.read rest "invalid number after ','"
      pure (some stop, rest)
    | _ => pure (none, rest)
  if rest ≠ [] then
    fail ("stray character in field spec: invalid field specification " ++ cited text) 2
  let letters := start.letters ++ ((stop?.map (·.letters)).getD [])
  return ⟨start, stop?, if letters = [] then common else .ofLetters letters⟩

def behindFields (separator? : Option Char) : Nat → List Char → List Char
  | 0, cs => cs
  | n + 1, cs =>
    match separator? with
    | some separator => behindFields separator? n ((cs.dropWhile (· != separator)).drop 1)
    | none => behindFields separator? n ((cs.dropWhile isBlank).dropWhile (!isBlank ·))

def firstField (separator? : Option Char) (cs : List Char) : List Char :=
  match separator? with
  | some separator => cs.takeWhile (· != separator)
  | none =>
    let blanks := cs.takeWhile isBlank
    blanks ++ (cs.drop blanks.length).takeWhile (!isBlank ·)

def Key.part (key : Key) (separator? : Option Char) (line : List Char) : List Char :=
  let rest := behindFields separator? (key.start.field - 1) line
  let rest := if key.rule.skipsBlanks then rest.dropWhile isBlank else rest
  let start := line.length - rest.length + (key.start.offset - 1)
  match key.stop? with
  | none => line.drop start
  | some stop =>
    let before := behindFields separator? (stop.field - 1) line
    let behind := if stop.offset = 0 then before.drop (firstField separator? before).length
      else (if key.rule.skipsBlanks then before.dropWhile isBlank else before).drop stop.offset
    (line.take (line.length - behind.length)).drop start

def compareKeys (separator? : Option Char) : List Key → List Char → List Char → Ordering
  | [], _, _ => .eq
  | key :: rest, a, b =>
    match key.rule.compare (key.part separator? a) (key.part separator? b) with
    | .eq => compareKeys separator? rest a b
    | other => other

/-- The first of lines that compare as equal. -/
def dropRepeated (same : String → String → Bool) : List String → List String
  | [] => []
  | a :: rest =>
    match dropRepeated same rest with
    | [] => [a]
    | b :: more => if same a b then a :: more else a :: b :: more

/-- The number of the first line that comes before the one in front of it. -/
def disorder? (before : String → String → Bool) : Nat → List String → Option (Nat × String)
  | n, a :: b :: rest =>
    if before b a then some (n + 1, b) else disorder? before (n + 1) (b :: rest)
  | _, _ => none

def sort : Tool := fun _ arguments => do
  let (found, names) ← ({
    letters := "bcCdfghik:mMno:rRsS:t:T:uVz"
    names := [("key", 'k'), ("numeric-sort", 'n'), ("reverse", 'r'), ("unique", 'u'),
      ("field-separator", 't'), ("output", 'o'), ("ignore-case", 'f'), ("stable", 's'),
      ("check", 'c'), ("ignore-leading-blanks", 'b'), ("dictionary-order", 'd'), ("merge", 'm')]
    status := 2, ordered := false } : Options).read arguments
  let common := Rule.ofLetters (found.map (·.1))
  let separator? ← match valueOf? found 't' with
    | none => pure none
    | some text => match text.toList with
      | [] => fail "empty tab" 2
      | [c] => pure (some c)
      | ['\\', '0'] => pure (some '\x00')
      | _ => fail ("multi-character tab " ++ cited text) 2
  let keys ← (found.filter (·.1 == 'k')).mapM fun (_, text) => Key.read text common
  let byKeys (a b : String) : Ordering :=
    if keys.isEmpty then common.compare a.toList b.toList
    else compareKeys separator? keys a.toList b.toList
  let total (a b : String) : Ordering :=
    match byKeys a b with
    | .eq =>
      if has found 's' || has found 'u' then .eq
      else
        let order := compareBytes a.toList b.toList
        if common.reversed then order.swap else order
    | other => other
  let mut all := []
  for name in if names.isEmpty then ["-"] else names do
    match ← readOperand name with
    | .ok text => all := all ++ (lines text).1
    | .error e => fail ("cannot read: " ++ unreadable name e) 2
  if has found 'c' || has found 'C' then
    let before (a b : String) : Bool :=
      if has found 'u' then total a b != .gt else total a b == .lt
    match disorder? before 1 all with
    | none => return 0
    | some (n, line) =>
      if has found 'c' then
        say ((names.headD "-") ++ ":" ++ toString n ++ ": disorder: " ++ line)
      return 1
  else
    let sorted := all.mergeSort fun a b => total a b != .gt
    let kept := if has found 'u' then dropRepeated (fun a b => byKeys a b == .eq) sorted else sorted
    match valueOf? found 'o' with
    | none => Sh.print (joined kept true)
    | some path =>
      match ← Sh.writeFile path (joined kept true) with
      | .ok () => pure ()
      | .error e => fail ("open failed: " ++ unreadable path e) 2
    return 0

/-! ## Repeated lines -/

/-- Lines that are the same one after another, with how many there are. -/
def runs (same : String → String → Bool) : List String → List (String × Nat)
  | [] => []
  | line :: rest =>
    match runs same rest with
    | [] => [(line, 1)]
    | (next, n) :: more =>
      if same line next then (line, n + 1) :: more else (line, 1) :: (next, n) :: more

def uniq : Tool := fun _ arguments => do
  let (found, names) ← ({
    letters := "cdDf:is:uw:z"
    names := [("count", 'c'), ("repeated", 'd'), ("unique", 'u'), ("ignore-case", 'i'),
      ("skip-fields", 'f'), ("skip-chars", 's'), ("check-chars", 'w')]
    status := 1, ordered := false } : Options).read arguments
  if names.length > 2 then misuse ("extra operand " ++ cited ((names.drop 2).headD "")) 1
  let number (c : Char) : Option Nat := (valueOf? found c).bind (·.toNat?)
  let view (line : String) : List Char :=
    let cs := (behindFields none ((number 'f').getD 0) line.toList).drop ((number 's').getD 0)
    let cs := match number 'w' with
      | some n => cs.take n
      | none => cs
    if has found 'i' then cs.map Char.toLower else cs
  let text ← match ← readOperand (names.headD "-") with
    | .ok text => pure text
    | .error e => fail (unreadable (names.headD "-") e) 1
  let kept := (runs (fun a b => view a == view b) (lines text).1).filter fun (_, n) =>
    (!has found 'd' || n > 1) && (!has found 'u' || n == 1)
  let output := joined (kept.map fun (line, n) =>
    if has found 'c' then aligned 7 n ++ " " ++ line else line) true
  match names with
  | [_, path] =>
    match ← Sh.writeFile path output with
    | .ok () => pure ()
    | .error e => fail (unreadable path e) 1
  | _ => Sh.print output
  return 0

/-! ## Comparing files -/

/-- What comes of comparing two sorted files line by line. -/
inductive Collated
  | line (column : Char) (text : String)
  /-- A file is found not to be sorted. -/
  | disorder (file : Char)

/-- Whether the line that is next in a file, or the last one if none is left,
sorts before the line in front of it. -/
def outOfOrder (before? : Option String) (line : String) (rest : List String) : Bool :=
  match rest with
  | next :: _ => compareBytes next.toList line.toList == .lt
  | [] => before?.any fun before => compareBytes line.toList before.toList == .lt

/-- The lines of two sorted files: those of the first, the second and both. The
order of a file is looked at from the first line on that is in one file only;
the lines in front of those left are at hand for it. -/
def collate (unpaired : Bool) (a? b? : Option String) : List String → List String → List Collated
  | [], [] => []
  | a :: as, [] => alone '1' a? a as ++ collate true (some a) b? as []
  | [], b :: bs => alone '2' b? b bs ++ collate true a? (some b) [] bs
  | a :: as, b :: bs =>
    match compareBytes a.toList b.toList with
    | .lt => alone '1' a? a as ++ collate true (some a) b? as (b :: bs)
    | .gt => alone '2' b? b bs ++ collate true a? (some b) (a :: as) bs
    | .eq =>
      .line '3' a :: checked unpaired '1' a? a as ++ checked unpaired '2' b? b bs ++
        collate unpaired (some a) (some b) as bs
termination_by as bs => as.length + bs.length
where
  /-- What is found out about the order of a file behind a line. -/
  checked (checks : Bool) (file : Char) (before? : Option String) (line : String)
      (rest : List String) : List Collated :=
    if checks && outOfOrder before? line rest then [.disorder file] else []
  alone (file : Char) (before? : Option String) (line : String) (rest : List String) :
      List Collated :=
    .line file line :: checked true file before? line rest

def comm : Tool := fun _ arguments => do
  let (found, names) ← ({
    letters := "123", names := [("nocheck-order", 'n')]
    status := 1, ordered := false } : Options).read arguments
  match names with
  | [a, b] =>
    let read (name : String) : Sh (List String) := do
      match ← readOperand name with
      | .ok text => return (lines text).1
      | .error e => fail (unreadable name e) 1
    let as ← read a
    let bs ← read b
    let mut disordered : List Char := []
    for c in collate false none none as bs do
      match c with
      | .line column text =>
        if !has found column then
          let front := ['1', '2'].filter fun d => d.val < column.val && !has found d
          Sh.print (String.join (front.map fun _ => "\t") ++ text ++ "\n")
      | .disorder file =>
        if !has found 'n' && !disordered.contains file then
          disordered := file :: disordered
          say ("file " ++ file.toString ++ " is not in sorted order")
    if disordered.isEmpty then return 0 else fail "input is not in sorted order" 1
  | [] => misuse "missing operand" 1
  | [only] => misuse ("missing operand after " ++ cited only) 1
  | _ :: _ :: extra :: _ => misuse ("extra operand " ++ cited extra) 1

/-- Where two texts differ first: the byte and the line, from one. -/
def difference? : Nat → Nat → List Char → List Char → Option (Nat × Nat)
  | _, _, [], _ => none
  | _, _, _, [] => none
  | byte, line, a :: as, b :: bs =>
    if a ≠ b then some (byte, line)
    else difference? (byte + 1) (if a = '\n' then line + 1 else line) as bs

def cmp : Tool := fun _ arguments => do
  let (found, names) ← ({
    letters := "sl", names := [("quiet", 's'), ("silent", 's'), ("verbose", 'l')]
    status := 2, ordered := false } : Options).read arguments
  let (a, b) ← match names with
    | [] => misuse "missing operand after 'cmp'" 2
    | [a] => pure (a, "-")
    | a :: b :: _ => pure (a, b)
  let read (name : String) : Sh String := do
    match ← readOperand name with
    | .ok text => return text
    | .error e =>
      if has found 's' then leave 2 else fail (name ++ ": " ++ e.reason) 2
  let first ← read a
  let second ← read b
  if first = second then return 0
  else
    if !has found 's' then
      match difference? 1 1 first.toList second.toList with
      | some (byte, line) =>
        Sh.print (a ++ " " ++ b ++ " differ: char " ++ toString byte ++ ", line " ++
          toString line ++ "\n")
      | none =>
        let (name, text) := if first.length < second.length then (a, first) else (b, second)
        let place := if text = "" then " which is empty"
          else if text.endsWith "\n" then
            " after byte " ++ toString text.length ++ ", line " ++ toString (text.toList.count '\n')
          else
            " after byte " ++ toString text.length ++ ", in line " ++
              toString (text.toList.count '\n' + 1)
        Sh.complain ((← Sh.shell).name ++ ": EOF on " ++ name ++ place ++ "\n")
    return 1

/-- The lengths of the longest common subsequences of the ends of two lists, by
rows: `row` is that of the end of the first list behind `a`. -/
def commonRow (a : String) : List String → List Nat → List Nat
  | [], _ => [0]
  | b :: bs, row =>
    let next := commonRow a bs row.tail
    let diagonal := (row.tail.headD 0)
    (if a = b then diagonal + 1 else max (row.headD 0) (next.headD 0)) :: next

/-- The rows of the lengths of the longest common subsequences, first one
first. -/
def commonRows (bs : List String) : List String → List (List Nat)
  | [] => [List.replicate (bs.length + 1) 0]
  | a :: as =>
    let rows := commonRows bs as
    commonRow a bs (rows.headD []) :: rows

/-- A line of a comparison. -/
inductive Edit
  | same (line : String)
  | gone (line : String)
  | new (line : String)

def edits : Nat → List (List Nat) → List String → List String → List Edit
  | 0, _, _, _ => []
  | _, _, [], bs => bs.map .new
  | _, _, as, [] => as.map .gone
  | budget + 1, rows, a :: as, b :: bs =>
    if a = b then .same a :: edits budget ((rows.drop 1).map List.tail) as bs
    else
      let below := ((rows.drop 1).headD []).headD 0
      let right := ((rows.headD []).drop 1).headD 0
      if below ≥ right then .gone a :: edits budget (rows.drop 1) as (b :: bs)
      else .new b :: edits budget (rows.map List.tail) (a :: as) bs

/-- A stretch of lines that changes: where it begins in both files. -/
structure Hunk where
  oldStart : Nat
  newStart : Nat
  gone : List String
  new : List String

def hunks : Nat → Nat → Hunk → List Edit → List Hunk
  | _, _, h, [] => if h.gone = [] ∧ h.new = [] then [] else [h]
  | old, new, h, .same _ :: rest =>
    let fresh : Hunk := ⟨old + 1, new + 1, [], []⟩
    if h.gone = [] ∧ h.new = [] then hunks (old + 1) (new + 1) fresh rest
    else h :: hunks (old + 1) (new + 1) fresh rest
  | old, new, h, .gone line :: rest =>
    hunks (old + 1) new { h with gone := h.gone ++ [line] } rest
  | old, new, h, .new line :: rest =>
    hunks old (new + 1) { h with new := h.new ++ [line] } rest

def rangeText (start count : Nat) : String :=
  if count ≤ 1 then toString start else toString start ++ "," ++ toString (start + count - 1)

/-- A change as `diff` writes it. -/
def Hunk.text (h : Hunk) : String :=
  let old := String.join (h.gone.map fun line => "< " ++ line ++ "\n")
  let new := String.join (h.new.map fun line => "> " ++ line ++ "\n")
  if h.gone = [] then
    toString (h.oldStart - 1) ++ "a" ++ rangeText h.newStart h.new.length ++ "\n" ++ new
  else if h.new = [] then
    rangeText h.oldStart h.gone.length ++ "d" ++ toString (h.newStart - 1) ++ "\n" ++ old
  else
    rangeText h.oldStart h.gone.length ++ "c" ++ rangeText h.newStart h.new.length ++ "\n" ++
      old ++ "---\n" ++ new

def diff : Tool := fun _ arguments => do
  let (found, names) ← ({
    letters := "abBcdeiqrsuwNU:"
    names := [("brief", 'q'), ("report-identical-files", 's'), ("unified", 'u'),
      ("recursive", 'r'), ("ignore-case", 'i'), ("ignore-all-space", 'w')]
    status := 2, ordered := false } : Options).read arguments
  let name := (← Sh.shell).name
  let usage (message : String) : Sh (String × String) := do
    say message
    Sh.complain (name ++ ": Try '" ++ name ++ " --help' for more information.\n")
    leave 2
  let (a, b) ← match names with
    | [] => usage ("missing operand after '" ++ name ++ "'")
    | [only] => usage ("missing operand after " ++ cited only)
    | [a, b] => pure (a, b)
    | _ :: _ :: extra :: _ => usage ("extra operand " ++ cited extra)
  let read (name : String) : Sh (Option String) := do
    match ← readOperand name with
    | .ok text => return some text
    | .error e =>
      say (name ++ ": " ++ e.reason)
      return none
  match ← read a, ← read b with
  | some first, some second =>
    if first = second then
      if has found 's' then Sh.print ("Files " ++ a ++ " and " ++ b ++ " are identical\n")
      return 0
    else if has found 'q' then
      Sh.print ("Files " ++ a ++ " and " ++ b ++ " differ\n")
      return 1
    else
      let as := (lines first).1
      let bs := (lines second).1
      let script := edits (as.length + bs.length + 1) (commonRows bs as) as bs
      Sh.print (String.join ((hunks 1 1 ⟨1, 1, [], []⟩ script).map Hunk.text))
      return 1
  | _, _ => return 2

end MapleCompiler.Script.Tool
