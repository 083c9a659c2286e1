import MapleCompiler.Host.Script.Arithmetic

/-!
# Changes of modes

The text of a change is either a number in base eight or a list of clauses:
who gets, loses or has exactly which rights. A clause that does not say who is
about everyone, except for the bits of the mask.
-/

namespace MapleCompiler.Script.ModeChange

def whoBits : Char → Nat
  | 'u' => 0o4700
  | 'g' => 0o2070
  | 'o' => 0o1007
  | _ => 0o7777

def rightBits (mode : Mode) (isDirectory : Bool) : Char → Option Nat
  | 'r' => some 0o444
  | 'w' => some 0o222
  | 'x' => some 0o111
  | 'X' => some (if isDirectory ∨ mode &&& 0o111 ≠ 0 then 0o111 else 0)
  | 's' => some 0o6000
  | 't' => some 0o1000
  | 'u' => some ((mode >>> 6 &&& 7) * 0o111)
  | 'g' => some ((mode >>> 3 &&& 7) * 0o111)
  | 'o' => some ((mode &&& 7) * 0o111)
  | _ => none

def without (a b : Nat) : Nat := a - (a &&& b)

/-- The operations of a clause on a mode: `who` are the bits that it is about,
and `mask` those it leaves alone. -/
def operations (isDirectory : Bool) (who mask : Nat) : Nat → List Char → Mode → Option Mode
  | 0, _, _ => none
  | _, [], mode => some mode
  | budget + 1, op :: cs, mode =>
    if op ≠ '+' ∧ op ≠ '-' ∧ op ≠ '=' then none
    else
      let letters := cs.takeWhile fun c => c != '+' && c != '-' && c != '='
      let rest := cs.drop letters.length
      match letters.mapM (rightBits mode isDirectory) with
      | none => none
      | some bits =>
        let all := bits.foldl (· ||| ·) 0
        let given := without (all &&& who) mask
        let kept := if isDirectory then 0o6000 &&& mode else 0
        let mode := match op with
          | '+' => mode ||| given
          | '-' => without mode given
          | _ => without mode who ||| given ||| (kept &&& who)
        operations isDirectory who mask budget rest mode

def clause (isDirectory : Bool) (mask : Nat) (cs : List Char) (mode : Mode) : Option Mode :=
  let letters := cs.takeWhile fun c => "ugoa".toList.contains c
  let rest := cs.drop letters.length
  let who := if letters = [] then 0o7777 else (letters.map whoBits).foldl (· ||| ·) 0
  if rest = [] then none
  else operations isDirectory who (if letters = [] then mask else 0) (rest.length + 1) rest mode

/-- **The mode after a change**, if its text means one. -/
def apply (text : String) (isDirectory : Bool) (mask : Nat) (mode : Mode) : Option Mode :=
  let cs := text.toList
  if cs ≠ [] ∧ cs.all fun c => '0' ≤ c ∧ c ≤ '7' then
    let bits := digitsValue 8 cs
    if bits ≤ 0o7777 then
      some (if isDirectory ∧ cs.length < 5 then bits ||| (mode &&& 0o6000) else bits)
    else none
  else
    (Lines.splitAt ',' cs).foldl (fun mode? part => mode?.bind (clause isDirectory mask part))
      (some mode)

end MapleCompiler.Script.ModeChange
