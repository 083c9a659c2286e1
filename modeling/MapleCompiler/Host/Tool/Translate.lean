import MapleCompiler.Host.Script.Builtin.Format
import MapleCompiler.Host.Tool.Basic
import MapleCompiler.Host.Script.Pattern

/-!
# Translating characters

`tr` replaces, deletes and squeezes characters. Its operands are sets of
characters: ranges, classes, escapes and repetitions, in the order in which
they stand.
-/

namespace MapleCompiler.Script.Tool

/-- A piece of a set of characters. -/
inductive SetPiece
  | chars (chars : List Char)
  | characterClass (name : String) (chars : List Char)
  /-- A character again and again, so that the set gets as long as the other. -/
  | filler (c : Char)

def everyChar : List Char := (List.range 256).map Char.ofNat

/-- The character at the front of a set, which may be escaped, and the rest. -/
def setChar : List Char → Option (Char × List Char)
  | [] => none
  | '\\' :: cs =>
    match cs with
    | [] => some ('\\', [])
    | c :: rest =>
      if Format.isOctal c then
        let (d, behind) := Format.escape false cs
        some (d, behind)
      else
        match (Format.escapeLetters.filter (·.1 != 'e')).lookup c with
        | some d => some (d, rest)
        | none => some (c, rest)
  | c :: cs => some (c, cs)

def setPieces : Nat → List Char → Except String (List SetPiece)
  | 0, _ => .ok []
  | _, [] => .ok []
  | budget + 1, cs =>
    match className? cs with
    | some (name, behind) =>
      match characterClass? name with
      | some test => do
        .ok (.characterClass name (everyChar.filter test) :: (← setPieces budget behind))
      | none => .error ("invalid character class " ++ "'" ++ name ++ "'")
    | none =>
      let repetition? : Option (SetPiece × List Char) := match cs with
        | '[' :: rest =>
          match setChar rest with
          | some (c, '*' :: behind) =>
            let digits := behind.takeWhile Char.isDigit
            match behind.drop digits.length with
            | ']' :: behind =>
              let n := digitsValue (if digits.head? = some '0' then 8 else 10) digits
              some (if n = 0 then .filler c else .chars (List.replicate n c), behind)
            | _ => none
          | _ => none
        | _ => none
      match repetition? with
      | some (piece, behind) => do .ok (piece :: (← setPieces budget behind))
      | none =>
        match setChar cs with
        | none => .ok []
        | some (first, rest) =>
          match rest with
          | '-' :: after =>
            match setChar after with
            | some (last, behind) =>
              if last < first then
                .error ("range-endpoints of '" ++ first.toString ++ "-" ++ last.toString ++
                  "' are in reverse collating sequence order")
              else do
                let chars := everyChar.filter fun c => first ≤ c && c ≤ last
                .ok (.chars chars :: (← setPieces budget behind))
            | none => do .ok (.chars [first] :: (← setPieces budget rest))
          | _ => do .ok (.chars [first] :: (← setPieces budget rest))

/-- The characters of a set, made at least as long as `size` by its filler. -/
def setChars (size : Nat) (pieces : List SetPiece) : List Char :=
  let fixed := (pieces.map fun
    | .chars cs => cs.length
    | .characterClass _ cs => cs.length
    | .filler _ => 0).foldl (· + ·) 0
  pieces.flatMap fun
    | .chars cs => cs
    | .characterClass _ cs => cs
    | .filler c => List.replicate (size - fixed) c

/-- A text without repetitions of characters of a set. -/
def squeezed (inSet : Char → Bool) : List Char → List Char
  | a :: b :: rest =>
    if a = b ∧ inSet a then squeezed inSet (b :: rest) else a :: squeezed inSet (b :: rest)
  | cs => cs

def tr : Tool := fun _ arguments => do
  let (found, sets) ← ({
    letters := "cCdst", names := [("complement", 'c'), ("delete", 'd'), ("squeeze-repeats", 's'),
      ("truncate-set1", 't')]
    status := 1, ordered := true } : Options).read arguments
  let deletes := has found 'd'
  let squeezes := has found 's'
  let complain {α : Type} (message detail : String) : Sh α := do
    say message
    if detail ≠ "" then Sh.complain (detail ++ "\n")
    Sh.complain ("Try '" ++ (← Sh.shell).name ++ " --help' for more information.\n")
    leave 1
  match sets with
  | [] => misuse "missing operand" 1
  | [only] =>
    if !deletes && !squeezes then
      complain ("missing operand after " ++ cited only)
        "Two strings must be given when translating."
    if deletes && squeezes then
      complain ("missing operand after " ++ cited only)
        "Two strings must be given when both deleting and squeezing repeats."
  | _ :: second :: rest =>
    if deletes && !squeezes then
      complain ("extra operand " ++ cited second)
        "Only one string may be given when deleting without squeezing repeats."
    if !rest.isEmpty then complain ("extra operand " ++ cited (rest.headD "")) ""
  let pieces (text : String) : Sh (List SetPiece) := do
    match setPieces (text.length + 1) text.toList with
    | .ok pieces => return pieces
    | .error message => fail message 1
  let given := setChars 0 (← pieces (sets.headD ""))
  let first :=
    if has found 'c' || has found 'C' then everyChar.filter (!given.contains ·) else given
  let input := (← Sh.input).toList
  match sets.drop 1 with
  | [] =>
    let kept := if deletes then input.filter (!first.contains ·) else squeezed first.contains input
    Sh.print (String.ofList kept)
    return 0
  | second :: _ =>
    let chars := setChars first.length (← pieces second)
    if deletes then
      Sh.print (String.ofList (squeezed chars.contains (input.filter (!first.contains ·))))
      return 0
    else
      if chars.isEmpty && !has found 't' && !first.isEmpty then
        fail "when not truncating set1, string2 must be non-empty" 1
      let filled := if has found 't' then chars
        else chars ++ List.replicate (first.length - chars.length) (chars.getLast?.getD ' ')
      let table := (first.zip filled).reverse
      let mapped := input.map fun c => (table.lookup c).getD c
      Sh.print (String.ofList (if squeezes then squeezed chars.contains mapped else mapped))
      return 0

end MapleCompiler.Script.Tool
