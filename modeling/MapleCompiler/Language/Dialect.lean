/-!
# Dialects

The language has two dialects. The legacy dialect is the small one; maple adds
comments, further comparisons, arithmetic and libraries. A dialect decides
which words are reserved and which marks may be written, and nothing else:
programs of both dialects mean the same once they are read.
-/

namespace MapleCompiler

/-- **A dialect of the language.** -/
inductive Dialect
  /-- The small dialect of `.josh` files. -/
  | legacy
  /-- The full dialect of `.mpl` programs and `.mal` libraries. -/
  | maple
deriving DecidableEq

/-- A part of the language that only some dialects have. -/
inductive Feature
  /-- Comments from `//` to the end of the line. -/
  | comments
  /-- The comparisons `>=`, `<=` and `!=`. -/
  | extendedComparisons
  /-- Arithmetic words and the arrow `=>`. -/
  | arithmetic
  /-- Library imports, namespaces and qualified calls. -/
  | libraries
deriving DecidableEq

namespace Dialect

/-- The name of a dialect. -/
def name : Dialect → String
  | legacy => "legacy"
  | maple => "maple"

/-- The dialect of files with the extension `ext`. -/
def ofExtension? (ext : String) : Option Dialect :=
  if ext = "mpl" ∨ ext = "mal" then some maple
  else if ext = "josh" then some legacy
  else none

/-- The extension of program files in a dialect. -/
def sourceExtension : Dialect → String
  | legacy => "josh"
  | maple => "mpl"

/-- Whether a dialect has a feature: maple has all of them, legacy none. -/
def supports (d : Dialect) (_ : Feature) : Bool :=
  match d with
  | legacy => false
  | maple => true

end Dialect

/-- The extension of library files. -/
def libraryExtension : String := "mal"

namespace Feature

/-- All features. -/
def all : List Feature := [comments, extendedComparisons, arithmetic, libraries]

end Feature

end MapleCompiler
