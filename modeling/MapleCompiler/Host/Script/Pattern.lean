import MapleCompiler.Host.FileTree

/-!
# Patterns for names

A pattern matches whole texts: `*` any stretch, `?` any character, and brackets
one character out of a set. Each character of a pattern is given with a flag
that says whether it can be special; one that was quoted cannot.

`Pattern.paths` gives the paths of a tree that a pattern with slashes matches,
in order. A name with a point at its front is found only by a pattern that
begins with a point.
-/

namespace MapleCompiler.Script

/-- What a pattern asks of a stretch of text. -/
inductive Item
  | literal (c : Char)
  /-- Any one character. -/
  | one
  /-- Any stretch. -/
  | many
  | among (test : Char → Bool)

/-- The characters of a pattern, each with whether it can be special. -/
abbrev MarkedText : Type := List (Char × Bool)

def MarkedText.text (marked : MarkedText) : String := String.ofList (marked.map (·.1))

def MarkedText.literal (text : String) : MarkedText := text.toList.map fun c => (c, false)

def characterClass? (name : String) : Option (Char → Bool) :=
  match name with
  | "alpha" => some Char.isAlpha
  | "digit" => some Char.isDigit
  | "alnum" => some Char.isAlphanum
  | "upper" => some Char.isUpper
  | "lower" => some Char.isLower
  | "space" => some fun c => " \t\n\r\x0b\x0c".toList.contains c
  | "blank" => some fun c => c == ' ' || c == '\t'
  | "punct" => some fun c => '!' ≤ c && c ≤ '~' && !c.isAlphanum
  | "print" => some fun c => ' ' ≤ c && c ≤ '~'
  | "graph" => some fun c => '!' ≤ c && c ≤ '~'
  | "cntrl" => some fun c => c < ' ' || c == '\x7f'
  | "xdigit" => some fun c => c.isDigit || ('a' ≤ c && c ≤ 'f') || ('A' ≤ c && c ≤ 'F')
  | _ => none

/-- The name between `[:` and `:]` at the front of a text, and the text behind. -/
def className? (cs : List Char) : Option (String × List Char) :=
  match cs with
  | '[' :: ':' :: rest =>
    let name := rest.takeWhile Char.isAlpha
    match rest.drop name.length with
    | ':' :: ']' :: behind => some (String.ofList name, behind)
    | _ => none
  | _ => none

/-- The test of the members of a set up to its bracket, and how many characters
of the text it takes. The bracket does not end a set without members. -/
def members : Nat → Bool → Nat → List Char → (Char → Bool) → Option ((Char → Bool) × Nat)
  | 0, _, _, _, _ => none
  | _, _, _, [], _ => none
  | budget + 1, first, taken, c :: cs, test =>
    if c = ']' ∧ !first then some (test, taken + 1)
    else
      match className? (c :: cs) with
      | some (name, behind) =>
        let more := (characterClass? name).getD fun _ => false
        members budget false (taken + ((c :: cs).length - behind.length)) behind
          fun x => test x || more x
      | none =>
        match cs with
        | '-' :: d :: rest =>
          if d = ']' then members budget false (taken + 1) cs fun x => test x || x == c
          else members budget false (taken + 3) rest fun x => test x || (c ≤ x && x ≤ d)
        | _ => members budget false (taken + 1) cs fun x => test x || x == c

/-- The first character of a pattern, which a backslash may escape, and the pattern
behind it. -/
def MarkedText.first? : MarkedText → Option (Char × MarkedText)
  | [] => none
  | ('\\', true) :: (c, _) :: rest => some (c, rest)
  | (c, _) :: rest => some (c, rest)

/-- The test of the members of a set in a pattern up to its bracket, and the pattern
behind it. The bracket does not end a set without members. -/
def setMembers : Nat → Bool → MarkedText → (Char → Bool) → Option ((Char → Bool) × MarkedText)
  | 0, _, _, _ => none
  | budget + 1, first, cs, test =>
    if cs.head? = some (']', true) ∧ !first then some (test, cs.tail)
    else
      let special := cs.takeWhile (·.2)
      match (className? (special.map (·.1))).bind fun (name, behind) =>
        (characterClass? name).map (·, special.length - behind.length) with
      | some (more, taken) =>
        setMembers budget false (cs.drop taken) fun x => test x || more x
      | none =>
        match MarkedText.first? cs with
        | none => none
        | some (c, rest) =>
          let single := setMembers budget false rest fun x => test x || x == c
          match rest with
          | ('-', true) :: next =>
            if next.head? = some (']', true) then single
            else
              match MarkedText.first? next with
              | none => none
              | some (d, behind) =>
                setMembers budget false behind fun x => test x || (c ≤ x && x ≤ d)
          | _ => single

/-- The set that begins after a bracket, and the pattern behind it. -/
def bracket? (cs : MarkedText) : Option ((Char → Bool) × MarkedText) :=
  let negated := cs.head? = some ('!', true)
  let inside := if negated then cs.tail else cs
  (setMembers (cs.length + 1) true inside fun _ => false).map fun (test, behind) =>
    (if negated then fun x => !test x else test, behind)

namespace Pattern

def itemsFrom : Nat → MarkedText → List Item
  | 0, _ => []
  | _, [] => []
  | budget + 1, (c, special) :: rest =>
    if !special then .literal c :: itemsFrom budget rest
    else if c = '*' then .many :: itemsFrom budget rest
    else if c = '?' then .one :: itemsFrom budget rest
    else if c = '\\' then
      match rest with
      | (escaped, _) :: behind => .literal escaped :: itemsFrom budget behind
      | [] => [.literal '\\']
    else if c = '[' then
      match bracket? rest with
      | some (test, behind) => .among test :: itemsFrom budget behind
      | none => .literal c :: itemsFrom budget rest
    else .literal c :: itemsFrom budget rest

def items (pattern : MarkedText) : List Item := itemsFrom (pattern.length + 1) pattern

def anyEnd (test : List Char → Bool) : List Char → Bool
  | [] => test []
  | c :: cs => test (c :: cs) || anyEnd test cs

/-- **Whether items match a whole text.** -/
def fits : List Item → List Char → Bool
  | [], cs => cs.isEmpty
  | .many :: rest, cs => anyEnd (fits rest) cs
  | .one :: rest, cs =>
    match cs with
    | [] => false
    | _ :: cs => fits rest cs
  | .literal c :: rest, cs =>
    match cs with
    | [] => false
    | d :: cs => c == d && fits rest cs
  | .among test :: rest, cs =>
    match cs with
    | [] => false
    | d :: cs => test d && fits rest cs

def isMatch (pattern : MarkedText) (text : String) : Bool := fits (items pattern) text.toList

def isActive (pattern : MarkedText) : Bool :=
  pattern.any fun (c, special) => special && (c == '*' || c == '?' || c == '[')

/-- Where in a text a stretch at its front ends, or one at its back begins, that
a pattern matches. A text may be made of several with `gap` between them. What is
matched ends at the first gap. The shortest stretch at the front and the longest
one at the back are searched for in the first text only. -/
def cuts (gap : Char) (pattern : MarkedText) (atFront longest : Bool) (text : List Char) :
    List Nat :=
  let found := items pattern
  let reach := if atFront = longest then text.length else (text.takeWhile (· != gap)).length
  (List.range (reach + 1)).filter fun n =>
    fits found ((if atFront then text.take n else text.drop n).takeWhile (· != gap))

/-- A text without a stretch at one of its ends that a pattern matches. -/
def trim (gap : Char) (pattern : MarkedText) (atFront longest : Bool) (text : String) : String :=
  let cs := text.toList
  let found := cuts gap pattern atFront longest cs
  match if atFront = longest then found.getLast? else found.head? with
  | none => text
  | some n => String.ofList (if atFront then cs.drop n else cs.take n)

def pieces : MarkedText → List MarkedText
  | [] => [[]]
  | (c, special) :: rest =>
    if c = '/' then [] :: pieces rest
    else
      match pieces rest with
      | [] => [[(c, special)]]
      | piece :: others => ((c, special) :: piece) :: others

def pieceText : MarkedText → List Char
  | [] => []
  | ('\\', true) :: (c, _) :: rest => c :: pieceText rest
  | (c, _) :: rest => c :: pieceText rest

/-- The paths that go on from `path` as the pieces say. -/
def pathsFrom (tree : FileTree) : List MarkedText → (path : String) → List String
  | [], path => [path]
  | piece :: rest, path =>
    let last := rest.isEmpty
    let goOn (name : String) : List String :=
      if last then [path ++ name] else pathsFrom tree rest (path ++ name ++ "/")
    if isActive piece then
      match tree.find (Octets.toText (if path = "" then "." else path)) with
      | .ok (place, .directory mode) =>
        if !mode.gives .read then []
        else
          let hidden := piece.head?.map (·.1) == some '.'
          let names := (if hidden then [".", ".."] else []) ++
            (tree.children place).map Octets.ofText
          let fitting := names.filter fun name =>
            (hidden || name.toList.head? != some '.') && isMatch piece name
          fitting.flatMap fun name =>
            if last || tree.isDirectory (Octets.toText (path ++ name)) then goOn name else []
      | _ => []
    else goOn (String.ofList (pieceText piece))

/-- **The paths of a tree that a pattern matches**, in the order of their bytes. -/
def paths (tree : FileTree) (pattern : MarkedText) : List String :=
  let found := (pathsFrom tree (pieces pattern) "").filter fun path =>
    match tree.find (Octets.toText path) with
    | .ok _ => true
    | .error _ => false
  found.mergeSort fun a b => a ≤ b

end Pattern

end MapleCompiler.Script
