/-!
# Arguments of the command line

The arguments name one input and may set options, before or after it. A long
option is written `--name`, with its value after a space or an equals sign; a
short one is a dash and a letter. Two dashes end the options. Every option may
be given once.

Arguments are read from left to right, and the first thing wrong with them is a
usage fault. A request for the version or for help is answered where it stands,
without a look at what follows.
-/

namespace MapleCompiler

/-- The compiler that builds generated programs unless another is chosen. -/
def defaultCompiler : String := "g++"

/-- The directory of libraries unless another is chosen. -/
def defaultLibraryDirectory : String := "lib"

/-- **What the command line is to do.** -/
structure Options where
  input : String
  /-- Where generated files go, if not to the directory of the input. -/
  outputDirectory? : Option String
  libraryDirectory : String
  /-- Whether to build the program and run it. -/
  run : Bool
  compiler : String
  /-- Whether to show what was read. -/
  dumpProgram : Bool
  /-- Whether to show the tokens. -/
  dumpTokens : Bool
deriving DecidableEq

/-- What the arguments ask for. -/
inductive Request
  | compile (options : Options)
  | version
  | help
  /-- The arguments are wrong, and how. -/
  | misuse (message : String)
deriving DecidableEq

/-- An option with a value. -/
inductive Setting
  | outputDirectory
  | libraryDirectory
  | compiler
deriving DecidableEq

/-- An option without a value. -/
inductive Switch
  | run
  | dumpProgram
  | dumpTokens
deriving DecidableEq

/-- The setting that a long name stands for. -/
def Setting.ofName? (name : String) : Option Setting :=
  [("out-dir", outputDirectory), ("lib-dir", libraryDirectory), ("cxx", compiler)].lookup name

/-- The switch that a long name stands for. -/
def Switch.ofName? (name : String) : Option Switch :=
  [("run", run), ("dump-ast", dumpProgram), ("dump-tokens", dumpTokens)].lookup name

/-- Whether the empty text is no value for a setting. -/
def Setting.isPath : Setting → Bool
  | outputDirectory => true
  | libraryDirectory => true
  | compiler => false

/-- The arguments read so far. -/
structure Draft where
  input? : Option String
  settings : List (Setting × String)
  switches : List Switch

namespace Draft

/-- No arguments. -/
def empty : Draft := ⟨none, [], []⟩

/-- Takes an input: one, and not the empty path. -/
def addInput (d : Draft) (input : String) : Except String Draft :=
  if d.input?.isSome then .error ("unexpected argument '" ++ input ++ "'")
  else if input = "" then .error "a value is required for the input"
  else .ok { d with input? := some input }

/-- Takes a setting, once. -/
def addSetting (d : Draft) (setting : Setting) (value : String) : Except String Draft :=
  if (d.settings.lookup setting).isSome then .error "an option is given twice"
  else if setting.isPath && value = "" then .error "an option needs a value"
  else .ok { d with settings := (setting, value) :: d.settings }

/-- Takes a switch, once. -/
def addSwitch (d : Draft) (switch : Switch) : Except String Draft :=
  if d.switches.contains switch then .error "an option is given twice"
  else .ok { d with switches := switch :: d.switches }

/-- What is asked for when all arguments are read. -/
def finish (d : Draft) : Request :=
  match d.input? with
  | none => .misuse "an input is required"
  | some input => .compile
    { input
      outputDirectory? := d.settings.lookup .outputDirectory
      libraryDirectory := (d.settings.lookup .libraryDirectory).getD defaultLibraryDirectory
      run := d.switches.contains .run
      compiler := (d.settings.lookup .compiler).getD defaultCompiler
      dumpProgram := d.switches.contains .dumpProgram
      dumpTokens := d.switches.contains .dumpTokens }

end Draft

/-- How an argument is read. -/
inductive Argument
  /-- The input, or a value. -/
  | value (text : String)
  /-- The end of the options. -/
  | dashes
  | switch (switch : Switch)
  /-- A setting, whose value may be attached. -/
  | setting (setting : Setting) (value? : Option String)
  | version
  | help
  /-- An option that does not exist, or a value where there is none. -/
  | unknown (text : String)
deriving DecidableEq

namespace Argument

/-- A long option by its name and the value attached to it. -/
def ofLong (text name : String) (value? : Option String) : Argument :=
  match Setting.ofName? name, Switch.ofName? name, value? with
  | some s, _, value? => setting s value?
  | none, some s, none => switch s
  | none, none, none =>
    if name = "version" then version else if name = "help" then help else unknown text
  | none, _, some _ => unknown text

/-- A short option by its letter and what follows in the argument. -/
def ofShort (text : String) (letter : Char) (rest : List Char) : Argument :=
  match letter, rest with
  | 'V', _ => version
  | 'h', _ => help
  | 'o', [] => setting .outputDirectory none
  | 'o', '=' :: given => setting .outputDirectory (some (String.ofList given))
  | 'o', given => setting .outputDirectory (some (String.ofList given))
  | _, _ => unknown text

/-- **How an argument is read** while options are allowed. -/
def ofText (text : String) : Argument :=
  match text.toList with
  | ['-', '-'] => dashes
  | '-' :: '-' :: long =>
    let name := String.ofList (long.takeWhile (· != '='))
    match long.dropWhile (· != '=') with
    | [] => ofLong text name none
    | _ :: given => ofLong text name (some (String.ofList given))
  | '-' :: letter :: rest => ofShort text letter rest
  | _ => value text

end Argument

namespace Request

/-- Reads on, unless something is wrong. -/
def andThen (step : Except String Draft) (next : Draft → Request) : Request :=
  match step with
  | .ok draft => next draft
  | .error message => misuse message

/-- The arguments after two dashes: all of them are inputs. -/
def readInputs (draft : Draft) : List String → Request
  | [] => draft.finish
  | text :: rest => Request.andThen (draft.addInput text) fun draft => readInputs draft rest

/-- **What the arguments ask for**, after those in the draft. -/
def read (draft : Draft) : List String → Request
  | [] => draft.finish
  | text :: rest =>
    match Argument.ofText text, rest with
    | .value text, rest => Request.andThen (draft.addInput text) fun draft => read draft rest
    | .dashes, rest => readInputs draft rest
    | .switch s, rest => Request.andThen (draft.addSwitch s) fun draft => read draft rest
    | .setting s (some value), rest =>
      Request.andThen (draft.addSetting s value) fun draft => read draft rest
    | .setting _ none, [] => misuse "an option needs a value"
    | .setting s none, next :: rest =>
      match Argument.ofText next with
      | .value value => Request.andThen (draft.addSetting s value) fun draft => read draft rest
      | _ => misuse "an option needs a value"
    | .version, _ => version
    | .help, _ => help
    | .unknown text, _ => misuse ("unexpected argument '" ++ text ++ "'")

/-- What a list of arguments asks for. -/
def ofArguments (arguments : List String) : Request := read .empty arguments

end Request

end MapleCompiler
