import MapleCompiler.Command.Run

/-!
# The command line

The entry point: the command line on the machine at hand. Colour is used on
request of the environment. Programs cannot be launched from here, and a run
that asks for it says so.
-/

namespace MapleCompiler

/-- The words for a failure of the operating system. -/
def osReason : IO.Error → String
  | .noFileOrDirectory _ _ _ => "No such file or directory (os error 2)"
  | .noSuchThing _ _ _ => "No such file or directory (os error 2)"
  | e => toString e

/-- The outcome of an action, with its failure in words. -/
def told {α : Type} (action : IO α) : IO (Except String α) := do
  try
    return .ok (← action)
  catch e => return .error (osReason e)

/-- The machine at hand. -/
def thisHost : Host IO where
  readText path := told (IO.FS.readFile path)
  isFile path := do
    match ← told (IO.FS.readFile path) with
    | .ok _ => return true
    | .error _ => return false
  createDirectories path := told (IO.FS.createDirAll path)
  writeText path text := told (IO.FS.writeFile path text)
  launch _ _ := return .error "Operation not supported (os error 95)"
  print text := do (← IO.getStdout).putStr text
  complain text := do (← IO.getStderr).putStr text
  fileBound := return 1000000

end MapleCompiler

/-- Runs the command line. -/
def main (arguments : List String) : IO UInt32 := do
  let coloured := (← IO.getEnv "CLICOLOR_FORCE").isSome
  let code ← MapleCompiler.Command.run MapleCompiler.thisHost coloured arguments
  return code.toUInt32
