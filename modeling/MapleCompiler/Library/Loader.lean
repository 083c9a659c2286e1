import MapleCompiler.Language.Dialect

/-!
# Where libraries come from

A `Loader` knows the sources of libraries by name. Asking it may have effects,
which the monad `m` stands for: `Id` for a table of texts, a state monad for
sources that change when they are read, `IO` for files.

A `Shelf` is a table of holdings. A holding is a text, a text that can be read
once, or one that cannot be read; `Shelf.loader` serves them, and remembers
what it served.
-/

namespace MapleCompiler

/-- **A source of libraries.** -/
structure Loader (m : Type → Type) where
  /-- Whether there is a library of a name. -/
  contains : String → m Bool
  /-- The source of a library, or why it cannot be read. -/
  load : String → m (Except String String)
  /-- Where a library is found, for messages. -/
  describe : String → String
  /-- No chain of imports of different libraries is longer. -/
  limit : Nat

/-- Where a library is found when only its name is known. -/
def libraryFile (name : String) : String := name ++ "." ++ libraryExtension

/-- What a shelf has of a library. -/
inductive Holding
  /-- A source that can be read any number of times. -/
  | text (source : String)
  /-- A source that is gone once it was read. -/
  | single (source : String)
  /-- A source that cannot be read, and why. -/
  | unreadable (message : String)
deriving DecidableEq

/-- **A table of libraries by name.** -/
abbrev Shelf : Type := List (String × Holding)

namespace Shelf

/-- Reads a library when those in `served` were read before. -/
def read (shelf : Shelf) (name : String) (served : List String) : Except String String :=
  match shelf.lookup name with
  | some (.text source) => .ok source
  | some (.single source) => if served.contains name then .error "already loaded" else .ok source
  | some (.unreadable message) => .error message
  | none => .error "not on the shelf"

/-- The loader of a shelf. Its state is the list of libraries that were read. -/
def loader (shelf : Shelf) : Loader (StateM (List String)) where
  contains name := return (shelf.lookup name).isSome
  load name := do
    let served ← get
    set (name :: served)
    return shelf.read name served
  describe := libraryFile
  limit := shelf.length

/-- The loader of a shelf whose holdings do not change when they are read. -/
def pureLoader (shelf : Shelf) : Loader Id where
  contains name := (shelf.lookup name).isSome
  load name := shelf.read name []
  describe := libraryFile
  limit := shelf.length

end Shelf

end MapleCompiler
