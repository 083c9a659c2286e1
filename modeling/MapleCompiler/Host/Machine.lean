import MapleCompiler.Host.FileTree

/-!
# Machines

A `Machine` is a host as a value: its files, its environment and the bytes that
were written to its two streams so far.
-/

namespace MapleCompiler

/-- **The files of a machine and what was written to its streams.** -/
structure Machine where
  tree : FileTree
  /-- The variables that every program is given. -/
  environment : List (String × String)
  /-- The bytes that were written to the stream for results. -/
  results : String
  /-- The bytes that were written to the stream for messages. -/
  messages : String

namespace Machine

/-- A machine on which nothing was written yet. -/
def ofTree (tree : FileTree) (environment : List (String × String)) : Machine :=
  ⟨tree, environment, "", ""⟩

/-- Writes a text to the stream for results. -/
def print (machine : Machine) (text : String) : Machine :=
  { machine with results := machine.results ++ Octets.ofText text }

/-- Writes a text to the stream for messages. -/
def complain (machine : Machine) (text : String) : Machine :=
  { machine with messages := machine.messages ++ Octets.ofText text }

end Machine

end MapleCompiler
