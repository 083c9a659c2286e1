import MapleCompiler.Host.Script.Interpreter
import MapleCompiler.Host.Tool.Edit
import MapleCompiler.Host.Tool.Search
import MapleCompiler.Host.Tool.Sort
import MapleCompiler.Host.Tool.Translate
import MapleCompiler.Host.Tool.Words

/-!
# All programs of a machine

`Tool.all` are the programs that a machine comes with, by their names. They
stand in `/bin` and `/usr/bin` of its files, which `Machine.systemRecords` gives. The
compiler stands where the system shows the programs of its processes.
-/

namespace MapleCompiler.Script.Tool

/-- **The programs of a machine by their names.** -/
def all : List (String × Tool) :=
  [("sh", interpreter), ("dash", interpreter), ("bash", interpreter),
    ("true", fun _ _ => return 0), ("false", fun _ _ => return 1),
    ("[", test "["), ("test", test "test"),
    ("echo", echo), ("printf", printf), ("yes", yes), ("seq", seq), ("expr", expr),
    ("basename", basename), ("dirname", dirname), ("realpath", realpath),
    ("readlink", readlink), ("stat", stat), ("pwd", pwd), ("which", which),
    ("env", env), ("printenv", printenv), ("sleep", sleep), ("timeout", timeout),
    ("nohup", before ""), ("nice", before "n:"), ("xargs", xargs), ("kill", kill),
    ("uname", uname), ("whoami", constant "user"),
    ("cat", cat), ("tee", tee), ("tac", tac), ("rev", rev), ("head", head), ("tail", tail),
    ("wc", wc), ("nl", nl), ("cut", cut), ("paste", paste), ("fold", fold), ("expand", expand),
    ("sort", sort), ("uniq", uniq), ("comm", comm), ("cmp", cmp), ("diff", diff), ("tr", tr),
    ("grep", grep 'G'), ("egrep", grep 'E'), ("fgrep", grep 'F'), ("find", find), ("sed", sed),
    ("ls", ls), ("cp", cp), ("mv", mv), ("ln", ln), ("rm", rm), ("rmdir", rmdir),
    ("mkdir", mkdir), ("touch", touch), ("chmod", chmod)]

/-- What a program says, and its code, when its output cannot be written. -/
def lostOutput : String → List String × Nat
  | "sort" => (["fflush failed: 'standard output': Bad file descriptor", "write error"], 2)
  | "find" =>
    (["'standard output': Bad file descriptor", "write error: Bad file descriptor"], 1)
  | "sed" => (["couldn't close stdout: Bad file descriptor"], 4)
  | "diff" => (["standard output: Bad file descriptor"], 2)
  | "tee" => (["'standard output': Bad file descriptor"], 1)
  | name =>
    let status :=
      if ["ls", "grep", "egrep", "fgrep", "printenv"].contains name then 2
      else if name = "expr" then 3
      else if name = "env" then 125
      else 1
    (["write error: Bad file descriptor"], status)

end MapleCompiler.Script.Tool

namespace MapleCompiler

namespace Machine

def systemRecords : List Record :=
  let directories : List Place :=
    [["bin"], ["usr"], ["usr", "bin"], ["etc"], ["dev"], ["home"], ["root"], ["var"],
      ["usr", "lib"],
      ["usr", "local"], ["usr", "local", "bin"], ["sbin"], ["usr", "sbin"], ["proc"],
      ["proc", toString Script.Program.compilerProcess]]
  let programs := Script.Tool.all.map fun (name, _) =>
    ⟨[["usr", "bin", name], ["bin", name]], Script.Program.file name⟩
  directories.map (fun place => ⟨[place], .directory sealedMode⟩) ++
    [⟨[["etc", "passwd"]], .file (.text "root:x:0:0:root:/root:/bin/bash\n") 0o444⟩,
      ⟨[["dev", "null"]], .file .device 0o666⟩, ⟨[["dev", "zero"]], .file .device 0o666⟩,
      ⟨[["proc", toString Script.Program.compilerProcess, "exe"]],
        Script.Program.file Script.Program.compilerName⟩] ++
    programs

end Machine

end MapleCompiler
