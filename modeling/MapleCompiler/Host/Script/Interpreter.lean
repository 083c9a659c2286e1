import MapleCompiler.Host.Script.Run
import MapleCompiler.Host.Tool.Basic

/-!
# The program that runs scripts

It takes the script from a file, from an argument or from the input; the other
arguments are the parameters of the script.
-/

namespace MapleCompiler.Script

/-- What the arguments of the program ask for. -/
structure Start where
  isArgument : Bool
  isInput : Bool
  rest : List String

namespace Start

/-- Sets options from letters. Gives the arguments that are left, and whether
the script is an argument. -/
def letters (on : Bool) : List Char → List String → Bool → Sh (List String × Bool)
  | [], rest, isArgument => return (rest, isArgument)
  | c :: cs, rest, isArgument => do
    if c = 'c' then letters on cs rest true
    else if c = 'l' then letters on cs rest isArgument
    else if c = 'o' then
      match rest with
      | [] => Builtin.showOptions on
      | name :: _ => Builtin.setNamedOption name on
      letters on cs rest.tail isArgument
    else
      Builtin.setOption c on
      letters on cs rest isArgument

def read : Nat → List String → Bool → Sh Start
  | 0, arguments, isArgument => return ⟨isArgument, false, arguments⟩
  | budget + 1, arguments, isArgument => do
    let finish (rest : List String) : Sh Start := do
      return ⟨isArgument, (← Sh.shell).options.contains 's', rest⟩
    match arguments with
    | [] => finish []
    | argument :: rest =>
      match argument.toList with
      | ['-'] => finish rest
      | ['-', '-'] => finish rest
      | '-' :: cs =>
        let (rest, isArgument) ← letters true cs rest isArgument
        read budget rest isArgument
      | '+' :: cs =>
        let (rest, isArgument) ← letters false cs rest isArgument
        read budget rest isArgument
      | _ => finish arguments

end Start

/-- The directories that programs are searched in where nothing else is said. -/
def defaultPath : String := "/usr/local/sbin:/usr/local/bin:/usr/sbin:/usr/bin:/sbin:/bin"

def Sh.prepare : Sh Unit := do
  Sh.modifyShell fun s => { s with
    process := s.identity
    vars := (s.vars.filter fun (name, _) => isName name).reverse }
  let parent := (← get).parents.head?.map (·.identity)
  let preset (name value : String) : Sh Unit :=
    Sh.setVariable name (some ⟨some value, false, false⟩)
  preset "IFS" " \t\n"
  preset "OPTIND" "1"
  preset "PPID" (toString (parent.getD 1))
  preset "PS1" "$ "
  preset "PS2" "> "
  preset "PS4" "+ "
  if (← Sh.value? "PATH").isNone then preset "PATH" defaultPath
  Sh.setVariable "PWD" (some ⟨some (← Builtin.directoryPath), true, false⟩)

def Sh.runScript (hooks : Hooks) (arguments : List String) : Sh Unit := do
  let start ← Start.read (arguments.length + 1) arguments false
  let setParameters (parameters : List String) : Sh Unit :=
    Sh.modifyShell fun s => { s with parameters }
  if start.isArgument then
    match start.rest with
    | [] => Sh.fail "-c requires an argument" 2
    | [text] => Sh.evaluate hooks false text
    | text :: name :: parameters =>
      Sh.modifyShell fun s => { s with name, parameters }
      Sh.evaluate hooks false text
  else if start.isInput || start.rest.isEmpty then
    setParameters start.rest
    Sh.evaluate hooks false (← Sh.input)
  else
    match start.rest with
    | [] => pure ()
    | path :: parameters =>
      match ← Sh.readFile path with
      | .ok text =>
        Sh.modifyShell fun s => { s with name := path, parameters }
        Sh.evaluate hooks false text
      | .error .isDirectory => pure ()
      | .error e => Sh.fail ("cannot open " ++ path ++ ": " ++ Sh.openReason .read e) 2

/-- **The program that runs scripts.** -/
def interpreter : Tool := fun hooks arguments => do
  Sh.prepare
  Sh.lifetime hooks (Sh.runScript hooks arguments)
  return (← Sh.shell).status

end MapleCompiler.Script
