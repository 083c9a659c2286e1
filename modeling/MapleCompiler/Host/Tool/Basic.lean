import MapleCompiler.Host.Script.Program

/-!
# Programs of a machine

A machine comes with programs that scripts use. A `Tool` is such a program: it
gets its arguments, reads the input, writes the output and gives its code.

What they have in common is here: how options are told from operands, how names
are shown in messages, and how files are read line by line.
-/

namespace MapleCompiler.Script

/-- **A program of a machine.** -/
abbrev Tool : Type := Hooks → List String → Sh Nat

namespace Tool

/-! ## Messages -/

def isPrintable (c : Char) : Bool := ' ' ≤ c && c ≤ '~'

def escaped (c : Char) : String :=
  match [('\x07', 'a'), ('\x08', 'b'), ('\x0c', 'f'), ('\n', 'n'), ('\r', 'r'), ('\t', 't'),
    ('\x0b', 'v')].lookup c with
  | some letter => "\\" ++ letter.toString
  | none =>
    let digits := Nat.toDigits 8 c.toNat
    "\\" ++ String.ofList (List.replicate (3 - digits.length) '0' ++ digits)

/-- The rest of a name in quotes. Bytes that are not shown stand in quotes of their
own, inside of which `escaping` holds. -/
def quotedFrom : (escaping : Bool) → List Char → String
  | _, [] => "'"
  | escaping, c :: cs =>
    if !isPrintable c then
      (if escaping then "" else "'$'") ++ escaped c ++ quotedFrom true cs
    else if c = '\'' then "'\\''" ++ quotedFrom false cs
    else (if escaping then "''" else "") ++ c.toString ++ quotedFrom false cs

def inQuotes (name : String) : String :=
  let cs := name.toList
  if cs.contains '\'' ∧ cs.all isPrintable ∧ !cs.any ("\"$\x60\\".toList.contains ·) then
    "\"" ++ name ++ "\""
  else "'" ++ quotedFrom false cs

def needsQuotes (name : String) : Bool :=
  name.isEmpty || name == "\x7b" || name == "\x7d" || name.startsWith "#" ||
    name.startsWith "~" ||
    name.toList.any fun c => !isPrintable c || " !\"$&'()*:;<=>?[\\^\x60|".toList.contains c

def shown (name : String) : String := if needsQuotes name then inQuotes name else name

/-- An argument in quotes, with escapes for what is not shown. -/
def cited (argument : String) : String :=
  "'" ++ String.join (argument.toList.map fun c =>
    if !isPrintable c then escaped c
    else if c = '\'' ∨ c = '\\' then "\\" ++ c.toString
    else c.toString) ++ "'"

def say (message : String) : Sh Unit := do
  Sh.complain ((← Sh.shell).name ++ ": " ++ message ++ "\n")

def leave {α : Type} (status : Nat) : Sh α := throw (.exit status)

def fail {α : Type} (message : String) (status : Nat) : Sh α := do
  say message
  leave status

def misuse {α : Type} (message : String) (status : Nat) : Sh α := do
  say message
  Sh.complain ("Try '" ++ (← Sh.shell).name ++ " --help' for more information.\n")
  leave status

/-! ## Options -/

/-- The options that a program knows. -/
structure Options where
  /-- Letters, each before a colon if it takes a value, before two if the value
  stands right behind it or is not there. -/
  letters : String
  /-- Long names for letters. -/
  names : List (String × Char)
  /-- The code of the program if an option is wrong. -/
  status : Nat
  /-- Whether options end where operands begin. -/
  ordered : Bool

namespace Options

/-- Whether a letter takes a value; none if it is no option. -/
def takes? (options : Options) (c : Char) : Option Nat :=
  match options.letters.toList.dropWhile (· != c) with
  | [] => none
  | _ :: ':' :: ':' :: _ => some 2
  | _ :: ':' :: _ => some 1
  | _ => some 0

/-- The long names that an abbreviation may stand for. -/
def matching (options : Options) (name : String) : List (String × Char) :=
  match options.names.find? (·.1 == name) with
  | some found => [found]
  | none => options.names.filter (·.1.startsWith name)

/-- Reads the options among some arguments: those that were found, and the
operands. -/
def readFrom (options : Options) : Nat → List String → List (Char × String) → List String →
    Sh (List (Char × String) × List String)
  | 0, arguments, found, operands => return (found, operands ++ arguments)
  | budget + 1, arguments, found, operands => do
    match arguments with
    | [] => return (found, operands)
    | "--" :: rest => return (found, operands ++ rest)
    | argument :: rest =>
      match argument.toList with
      | '-' :: '-' :: cs =>
        let name := String.ofList (cs.takeWhile (· != '='))
        let value? := match cs.dropWhile (· != '=') with
          | [] => none
          | _ :: value => some (String.ofList value)
        match options.matching name with
        | [] => misuse ("unrecognized option '" ++ argument ++ "'") options.status
        | (full, c) :: others =>
          if others.any (·.2 != c) then
            misuse ("option '" ++ argument ++ "' is ambiguous; possibilities:" ++
              String.join (options.matching name |>.map fun (n, _) => " '--" ++ n ++ "'"))
              options.status
          else
            match options.takes? c, value? with
            | some 0, some _ =>
              misuse ("option '--" ++ full ++ "' doesn't allow an argument") options.status
            | some 1, none =>
              match rest with
              | value :: rest => readFrom options budget rest (found ++ [(c, value)]) operands
              | [] => misuse ("option '--" ++ full ++ "' requires an argument") options.status
            | _, value? =>
              readFrom options budget rest (found ++ [(c, value?.getD "")]) operands
      | '-' :: c :: cs =>
        match options.takes? c with
        | none => misuse ("invalid option -- '" ++ c.toString ++ "'") options.status
        | some 0 =>
          if cs = [] then readFrom options budget rest (found ++ [(c, "")]) operands
          else
            readFrom options budget (String.ofList ('-' :: cs) :: rest) (found ++ [(c, "")])
              operands
        | some 1 =>
          if cs ≠ [] then
            readFrom options budget rest (found ++ [(c, String.ofList cs)]) operands
          else
            match rest with
            | value :: rest => readFrom options budget rest (found ++ [(c, value)]) operands
            | [] => misuse ("option requires an argument -- '" ++ c.toString ++ "'") options.status
        | some _ => readFrom options budget rest (found ++ [(c, String.ofList cs)]) operands
      | _ =>
        if options.ordered then return (found, operands ++ arguments)
        else readFrom options budget rest found (operands ++ [argument])

/-- **The options and the operands among some arguments.** -/
def read (options : Options) (arguments : List String) :
    Sh (List (Char × String) × List String) :=
  options.readFrom ((arguments.map (·.length + 1)).foldl (· + ·) 1) arguments [] []

end Options

def has (found : List (Char × String)) (c : Char) : Bool := found.any (·.1 == c)

def valueOf? (found : List (Char × String)) (c : Char) : Option String :=
  (found.reverse.find? (·.1 == c)).map (·.2)

/-! ## Reading -/

/-- The bytes of a file, or of the input. -/
def readOperand (name : String) : Sh (Except FileError String) := do
  if name = "-" ∨ name = "/dev/stdin" then
    if (← Sh.waiting? 0).isSome then return .ok (← Sh.input) else return .error .badDescriptor
  else if name = "/dev/null" then return .ok ""
  else Sh.readFile name

/-- The lines of some bytes, each without its end, and whether the last one has
an end. -/
def lines (text : String) : List String × Bool :=
  let parts := (Lines.splitAt '\n' text.toList).map String.ofList
  match parts.reverse with
  | "" :: rest => (rest.reverse, true)
  | rest => (rest.reverse, false)

def joined (lines : List String) (ended : Bool) : String :=
  let text := "\n".intercalate lines
  if ended ∧ lines ≠ [] then text ++ "\n" else text

/-- The bytes of files one after another, or of the input if there are none;
what cannot be read is told about. -/
def readAll (complaint : String → FileError → String) (names : List String) :
    Sh (String × Bool) := do
  let mut text := ""
  let mut fine := true
  for name in if names.isEmpty then ["-"] else names do
    match ← readOperand name with
    | .ok more => text := text ++ more
    | .error e =>
      say (complaint name e)
      fine := false
  return (text, fine)

def unreadable (name : String) (e : FileError) : String := shown name ++ ": " ++ e.reason

end Tool

end MapleCompiler.Script
