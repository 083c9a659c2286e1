import MapleCompiler.Host.Tool.Basic
import MapleCompiler.Host.Tool.Mode

/-!
# Programs that change files

These programs list, copy, move, remove and make files and directories, and
change their modes. Each says what it could not do and goes on with the next
operand; its code then is not zero.
-/

namespace MapleCompiler.Script.Tool

/-- Runs something for each operand; the code is one if it failed for any. -/
def each (operands : List String) (action : String → Sh Bool) : Sh Nat := do
  let mut status := 0
  for operand in operands do
    if !(← action operand) then status := 1
  return status

/-- Notes that an operand failed, and why. -/
def because (message : String) (e : FileError) : Sh Bool := do
  say (message ++ ": " ++ e.reason)
  return false

def under (directory name : String) : String :=
  if directory.endsWith "/" then directory ++ name else directory ++ "/" ++ name

def trimSlashes (path : String) : String :=
  let kept := path.toList.reverse.dropWhile (· == '/')
  if kept = [] ∧ path ≠ "" then "/" else String.ofList kept.reverse

def lastName (path : String) : String :=
  let trimmed := trimSlashes path
  if trimmed = "/" then "/"
  else String.ofList (trimmed.toList.reverse.takeWhile (· != '/')).reverse

def above (path : String) : String :=
  let trimmed := trimSlashes path
  let rest := trimmed.toList.reverse.dropWhile (· != '/')
  if rest = [] then "."
  else
    let kept := rest.dropWhile (· == '/')
    if kept = [] then "/" else String.ofList kept.reverse

/-- Where a path leads, even if nothing stands there, in a directory that
does. A link at its end may be gone `through`. -/
def destination (through : Bool) (path : String) : Sh (Except FileError Place) := do
  let tree ← Sh.tree
  match if through then tree.reach (Octets.toText path) else tree.locate (Octets.toText path) with
  | .error e => return .error e
  | .ok place =>
    match tree.get? place.dropLast with
    | some (.directory _) => return .ok place
    | some _ => return .error .notDirectory
    | none => return .error .notFound

def isDirectory (path : String) : Sh Bool := do
  return (← Sh.tree).isDirectory (Octets.toText path)

/-! ## Listing -/

/-- What a listing shows. -/
structure Listing where
  hidden : Bool
  dots : Bool
  marks : Bool
  slashes : Bool
  reversed : Bool
  recursive : Bool

def Listing.line (l : Listing) (name : String) (found? : Option Entry) : String :=
  let mark := match found? with
    | some (.directory _) => if l.marks || l.slashes then "/" else ""
    | some (.file _ mode) => if l.marks && mode &&& 0o111 != 0 then "*" else ""
    | some (.link _) => if l.marks then "@" else ""
    | none => ""
  name ++ mark ++ "\n"

def Listing.names (l : Listing) (tree : FileTree) (place : Place) : List String :=
  let names := (tree.children place).map Octets.ofText
  let shown := if l.hidden || l.dots then names
    else names.filter fun name => !name.startsWith "."
  let all := if l.dots then (["." , ".."] ++ shown).mergeSort (· ≤ ·) else shown
  if l.reversed then all.reverse else all

def listDirectory (l : Listing) : Nat → Bool → String → Sh Nat
  | 0, _, _ => return 0
  | budget + 1, titled, path => do
    let tree ← Sh.tree
    match tree.find (Octets.toText path) with
    | .ok (place, .directory mode) =>
      if !mode.gives .read then
        say ("cannot open directory " ++ inQuotes path ++ ": " ++ FileError.accessDenied.reason)
        return 2
      else
        if titled then Sh.print (path ++ ":\n")
        let names := l.names tree place
        for name in names do
          Sh.print (l.line name (tree.get? (if name = "." then place
            else if name = ".." then place.dropLast else place ++ [Octets.toText name])))
        let mut status := 0
        if l.recursive then
          for name in names do
            if name ≠ "." ∧ name ≠ ".." ∧
                ((tree.get? (place ++ [Octets.toText name])).any Entry.isDirectory) then
              Sh.print "\n"
              status := max status (← listDirectory l budget true (under path name))
        return status
    | _ => return 0

def ls : Tool := fun _ arguments => do
  let (found, operands) ← ({
    letters := "1aACdFfghHiklLmnopqQrRsStTuUvwxXGN"
    names := [("all", 'a'), ("almost-all", 'A'), ("directory", 'd'), ("recursive", 'R'),
      ("reverse", 'r'), ("classify", 'F')]
    status := 2, ordered := false } : Options).read arguments
  let listing : Listing :=
    { hidden := has found 'A', dots := has found 'a', marks := has found 'F'
      slashes := has found 'p', reversed := has found 'r', recursive := has found 'R' }
  let operands := (if operands.isEmpty then ["."] else operands).mergeSort (· ≤ ·)
  let operands := if listing.reversed then operands.reverse else operands
  let tree ← Sh.tree
  let mut status := 0
  let mut files := []
  let mut directories := []
  for operand in operands do
    let found? := match tree.find (Octets.toText operand) with
      | .error .notFound => tree.look (Octets.toText operand)
      | found => found
    match found? with
    | .error e =>
      say ("cannot access " ++ inQuotes operand ++ ": " ++ e.reason)
      status := 2
    | .ok (_, entry) =>
      if entry.isDirectory && !has found 'd' then directories := directories ++ [operand]
      else files := files ++ [(operand, entry)]
  for (name, entry) in files do
    Sh.print (listing.line name (some entry))
  let titled := operands.length > 1 || listing.recursive
  let mut first := files.isEmpty
  for directory in directories do
    if !first then Sh.print "\n"
    first := false
    status := max status (← listDirectory listing (tree.listing.length + 1) titled directory)
  return status

/-! ## Copying and moving -/

/-- How files are copied. -/
structure Copying where
  recursive : Bool
  verbose : Bool
  /-- Whether a file that is there already stays. -/
  keepsOld : Bool
  keepsModes : Bool

def copyTo (how : Copying) (source target : String) : Sh Bool := do
  let tree ← Sh.tree
  let path := Octets.toText source
  match if how.recursive then tree.look path else tree.find path with
  | .error e => because ("cannot stat " ++ inQuotes source) e
  | .ok (origin, entry) =>
    match ← destination true target with
    | .error e =>
      because ("cannot create " ++ (if entry.isDirectory then "directory " else "regular file ") ++
        inQuotes target) e
    | .ok place =>
      if entry.isDirectory && !how.recursive then
        say ("-r not specified; omitting directory " ++ inQuotes source)
        return false
      else if place = origin then
        say (inQuotes source ++ " and " ++ inQuotes target ++ " are the same file")
        return false
      else if entry.isDirectory && origin.isPrefixOf place then
        say ("cannot copy a directory, " ++ inQuotes source ++ ", into itself, " ++ inQuotes target)
        return false
      else
        let mask := (← Sh.shell).mask
        let fresh (mode : Mode) : Mode :=
          if how.keepsModes then mode else ModeChange.without mode mask
        match entry, tree.get? place with
        | .file content mode, existing? =>
          if !mode.gives .read then
            because ("cannot open " ++ inQuotes source ++ " for reading") .accessDenied
          else
            match existing? with
            | some (.directory _) =>
              say ("cannot overwrite directory " ++ inQuotes target ++ " with non-directory")
              return false
            | some (.link _) =>
              because ("cannot create regular file " ++ inQuotes target) .tooManyLinks
            | some (.file there old) =>
              if how.keepsOld then return true
              else if !old.gives .write then
                because ("cannot create regular file " ++ inQuotes target) .accessDenied
              else
                Sh.setTree (tree.alter place (.file (there.replacedBy content)
                  (if how.keepsModes then mode else old)))
                if how.verbose then Sh.print (inQuotes source ++ " -> " ++ inQuotes target ++ "\n")
                return true
            | none =>
              if target.endsWith "/" then
                because ("cannot create regular file " ++ inQuotes target) .notDirectory
              else if !tree.isOpen place.dropLast then
                because ("cannot create regular file " ++ inQuotes target) .accessDenied
              else
                Sh.setTree (tree.put place (.file content (fresh mode)))
                if how.verbose then Sh.print (inQuotes source ++ " -> " ++ inQuotes target ++ "\n")
                return true
        | .link held, existing? =>
          if existing?.isSome then
            because ("cannot create symbolic link " ++ inQuotes target) .alreadyExists
          else
            Sh.setTree (tree.put place (.link held))
            return true
        | .directory mode, existing? =>
          match existing? with
          | some (.file _ _) =>
            say ("cannot overwrite non-directory " ++ inQuotes target ++ " with directory " ++
              inQuotes source)
            return false
          | existing? =>
            if existing?.isNone && !tree.isOpen place.dropLast then
              because ("cannot create directory " ++ inQuotes target) .accessDenied
            else
              let entries := (tree.below origin).map fun (path, entry) =>
                if path = [] then (path, (existing?.getD (.directory (fresh mode))))
                else
                  match tree.get? (place ++ path), entry with
                  | some (.file _ old), .file content _ => (path, .file content old)
                  | some (.directory old), .directory _ => (path, .directory old)
                  | _, entry => (path, entry.withMode (fresh entry.mode))
              Sh.setTree (tree.graft place entries)
              if how.verbose then Sh.print (inQuotes source ++ " -> " ++ inQuotes target ++ "\n")
              return true

def moveTo (verbose keepsOld : Bool) (source target : String) : Sh Bool := do
  let tree ← Sh.tree
  match tree.look (Octets.toText source) with
  | .error e => because ("cannot stat " ++ inQuotes source) e
  | .ok (origin, entry) =>
    let refused := "cannot move " ++ inQuotes source ++ " to " ++ inQuotes target
    match ← destination false target with
    | .error e => because refused e
    | .ok place =>
      if place = origin then
        say (inQuotes source ++ " and " ++ inQuotes target ++ " are the same file")
        return false
      else if entry.isDirectory && origin.isPrefixOf place then
        say ("cannot move " ++ inQuotes source ++ " to a subdirectory of itself, " ++
          inQuotes target)
        return false
      else if !tree.isOpen origin.dropLast || !tree.isOpen place.dropLast then
        because refused .accessDenied
      else
        match entry.isDirectory, tree.get? place with
        | false, some (.directory _) =>
          say ("cannot overwrite directory " ++ inQuotes target ++ " with non-directory")
          return false
        | true, some (.file _ _) | true, some (.link _) =>
          say ("cannot overwrite non-directory " ++ inQuotes target ++ " with directory " ++
            inQuotes source)
          return false
        | directory, existing? =>
          if directory && existing?.isSome && !(tree.children place).isEmpty then
            because refused .notEmpty
          else if existing?.isSome && keepsOld then return true
          else if !directory && target.endsWith "/" then because refused .notDirectory
          else
            Sh.setTree (tree.move origin place)
            if verbose then
              Sh.print ("renamed " ++ inQuotes source ++ " -> " ++ inQuotes target ++ "\n")
            return true

/-- Brings operands to the last one, or into it if it is a directory. -/
def transfer (found : List (Char × String)) (operands : List String)
    (move : String → String → Sh Bool) : Sh Nat := do
  let (sources, target) ← match valueOf? found 't', operands.reverse with
    | some directory, _ => pure (operands, directory)
    | none, [] => misuse "missing file operand" 1
    | none, [only] => misuse ("missing destination file operand after " ++ inQuotes only) 1
    | none, last :: rest => pure (rest.reverse, last)
  let into := !has found 'T' && (← isDirectory target)
  if (sources.length > 1 || has found 't') && !into then
    let reason := match ← Sh.find target with
      | .ok _ => FileError.notDirectory
      | .error e => e
    fail ("target " ++ inQuotes target ++ ": " ++ reason.reason) 1
  each sources fun source =>
    move source (if into then under target (lastName source) else target)

def cp : Tool := fun _ arguments => do
  let (found, operands) ← ({
    letters := "abdfHilLnprRst:TuvxP"
    names := [("recursive", 'r'), ("archive", 'a'), ("force", 'f'), ("verbose", 'v'),
      ("no-clobber", 'n'), ("target-directory", 't'), ("no-target-directory", 'T')]
    status := 1, ordered := false } : Options).read arguments
  transfer found operands (copyTo
    { recursive := has found 'r' || has found 'R' || has found 'a'
      verbose := has found 'v', keepsOld := has found 'n'
      keepsModes := has found 'p' || has found 'a' })

def mv : Tool := fun _ arguments => do
  let (found, operands) ← ({
    letters := "bfint:Tuv"
    names := [("force", 'f'), ("verbose", 'v'), ("no-clobber", 'n'), ("target-directory", 't'),
      ("no-target-directory", 'T')]
    status := 1, ordered := false } : Options).read arguments
  transfer found operands (moveTo (has found 'v') (has found 'n'))

def pathBetween : Place → Place → String
  | step :: directory, name :: place =>
    if step = name then pathBetween directory place
    else "/".intercalate ((step :: directory).map (fun _ => "..") ++ name :: place)
  | directory, place => "/".intercalate (directory.map (fun _ => "..") ++ place)

def ln : Tool := fun _ arguments => do
  let (found, operands) ← ({
    letters := "sfnvrTt:L"
    names := [("symbolic", 's'), ("force", 'f'), ("verbose", 'v'), ("relative", 'r')]
    status := 1, ordered := false } : Options).read arguments
  let operands := match operands with
    | [only] => [only, "."]
    | operands => operands
  let kind := if has found 's' then "symbolic" else "hard"
  transfer found operands fun source target => do
    let tree ← Sh.tree
    let refused := "failed to create " ++ kind ++ " link " ++ inQuotes target
    match ← destination false target with
    | .error e => because refused e
    | .ok place =>
      if (tree.get? place).isSome && !has found 'f' then because refused .alreadyExists
      else if !tree.isOpen place.dropLast then because refused .accessDenied
      else if has found 's' then
        let held := match tree.reach (Octets.toText source) with
          | .ok goal =>
            if has found 'r' then pathBetween place.dropLast goal else Octets.toText source
          | .error _ => Octets.toText source
        Sh.setTree (tree.put place (.link held))
        return true
      else
        match tree.look (Octets.toText source) with
        | .ok (_, .directory _) =>
          say (inQuotes source ++ ": hard link not allowed for directory")
          return false
        | .ok (origin, _) =>
          Sh.setTree (tree.addName origin place)
          return true
        | .error e => because ("failed to access " ++ inQuotes source) e

/-! ## Removing -/

def remove (force recursive directories verbose : Bool) (path : String) : Sh Bool := do
  let tree ← Sh.tree
  let refused := "cannot remove " ++ inQuotes path
  match tree.look (Octets.toText path) with
  | .error e =>
    if force && (e = .notFound || e = .notDirectory) then return true
    else because refused e
  | .ok (place, entry) =>
    let empty := (tree.children place).isEmpty
    if entry.isDirectory && !recursive && !(directories && empty) then
      because refused (if directories then .notEmpty else .isDirectory)
    else if entry.isDirectory && ["." , ".."].contains (lastName path) then
      say ("refusing to remove '.' or '..' directory: skipping " ++ inQuotes path)
      return false
    else if !entry.isDirectory && path.endsWith "/" then because refused .notDirectory
    else if !tree.isOpen place.dropLast then because refused .accessDenied
    else
      let stuck :=
        (tree.below place).find? fun (p, _) => p ≠ [] ∧ !tree.isOpen (place ++ p).dropLast
      match stuck with
      | some (p, _) =>
        because ("cannot remove " ++ inQuotes (under path ("/".intercalate p))) .accessDenied
      | none =>
        Sh.setTree (tree.eraseBelow place)
        if verbose then
          Sh.print ((if entry.isDirectory then "removed directory " else "removed ") ++
            inQuotes path ++ "\n")
        return true

def rm : Tool := fun _ arguments => do
  let (found, operands) ← ({
    letters := "dfiIrRv"
    names := [("force", 'f'), ("recursive", 'r'), ("dir", 'd'), ("verbose", 'v')]
    status := 1, ordered := false } : Options).read arguments
  if operands.isEmpty then
    if has found 'f' then return 0 else misuse "missing operand" 1
  each operands (remove (has found 'f') (has found 'r' || has found 'R') (has found 'd')
    (has found 'v'))

def removeDirectory (verbose : Bool) (path : String) : Sh Bool := do
  let tree ← Sh.tree
  let refused := "failed to remove " ++ inQuotes path
  if verbose then Sh.print ("rmdir: removing directory, " ++ inQuotes path ++ "\n")
  match tree.look (Octets.toText path) with
  | .error e => because refused e
  | .ok (_, .file _ _) | .ok (_, .link _) => because refused .notDirectory
  | .ok (place, .directory _) =>
    if lastName path = "." then
      say (refused ++ ": Invalid argument")
      return false
    else if !(tree.children place).isEmpty then because refused .notEmpty
    else if !tree.isOpen place.dropLast then because refused .accessDenied
    else
      Sh.setTree (tree.erase place)
      return true

/-- A path and those above it, up to the first name. -/
def withParents : Nat → String → List String
  | 0, path => [path]
  | budget + 1, path =>
    let up := above path
    if up = "." ∨ up = "/" then [path] else path :: withParents budget up

def rmdir : Tool := fun _ arguments => do
  let (found, operands) ← ({
    letters := "pv", names := [("parents", 'p'), ("verbose", 'v')]
    status := 1, ordered := false } : Options).read arguments
  if operands.isEmpty then misuse "missing operand" 1
  each operands fun path => do
    let paths := if has found 'p' then withParents path.length path else [path]
    let mut fine := true
    for path in paths do
      if fine then fine ← removeDirectory (has found 'v') path
    return fine

/-! ## Making -/

def makeDirectory (mode : Mode) (parents verbose : Bool) (path : String) : Sh Bool := do
  let mask := (← Sh.shell).mask
  let paths := if parents then (withParents path.length (trimSlashes path)).reverse else [path]
  let mut fine := true
  for step in paths do
    if fine then
      let tree ← Sh.tree
      let last := step = trimSlashes path ∨ !parents
      let mode := if last then mode else ModeChange.without 0o777 mask ||| 0o300
      match tree.createDirectory (Octets.toText step) mode with
      | .ok tree =>
        Sh.setTree tree
        if verbose then Sh.print ("mkdir: created directory " ++ inQuotes step ++ "\n")
      | .error e =>
        if !(parents && (← isDirectory step)) then
          let e := if e = .alreadyExists ∧ !last then FileError.notDirectory else e
          fine ← because ("cannot create directory " ++ cited step) e
  return fine

def mkdir : Tool := fun _ arguments => do
  let (found, operands) ← ({
    letters := "pm:vZ", names := [("parents", 'p'), ("mode", 'm'), ("verbose", 'v')]
    status := 1, ordered := false } : Options).read arguments
  if operands.isEmpty then misuse "missing operand" 1
  let mask := (← Sh.shell).mask
  let mode ← match valueOf? found 'm' with
    | none => pure (ModeChange.without 0o777 mask)
    | some text =>
      match ModeChange.apply text true mask 0o777 with
      | some mode => pure mode
      | none => fail ("invalid mode " ++ cited text) 1
  each operands (makeDirectory mode (has found 'p') (has found 'v'))

def touch : Tool := fun _ arguments => do
  let (found, operands) ← ({
    letters := "acd:fhmr:t:", names := [("no-create", 'c'), ("date", 'd'), ("reference", 'r')]
    status := 1, ordered := false } : Options).read arguments
  if operands.isEmpty then misuse "missing file operand" 1
  each operands fun path => do
    let tree ← Sh.tree
    let refused := "cannot touch " ++ inQuotes path
    match ← destination true path with
    | .error e => because refused e
    | .ok place =>
      if (tree.get? place).isSome || has found 'c' then return true
      else if !tree.isOpen place.dropLast then because refused .accessDenied
      else
        Sh.setTree (tree.put place (.file (.text "") (← Sh.newMode 0o666)))
        return true

def chmod : Tool := fun _ arguments => do
  let isMode (argument : String) : Bool :=
    argument.startsWith "-" && argument.length > 1 &&
      argument.toList.tail.all ("rwxXstugo,+-=".toList.contains ·)
  let (modes, others) := arguments.partition isMode
  let (found, operands) ← ({
    letters := "Rcvf"
    names := [("recursive", 'R'), ("verbose", 'v'), ("changes", 'c'), ("silent", 'f'),
      ("quiet", 'f')]
    status := 1, ordered := false } : Options).read others
  let (change, paths) ← match modes, operands with
    | [], [] => misuse "missing operand" 1
    | [], [only] => misuse ("missing operand after " ++ cited only) 1
    | [], change :: paths => pure (change, paths)
    | first :: _, [] => misuse ("missing operand after " ++ cited first) 1
    | first :: _, paths => pure (first, paths)
  let mask := (← Sh.shell).mask
  if (ModeChange.apply change false mask 0).isNone then
    misuse ("invalid mode: " ++ cited change) 1
  each paths fun path => do
    let tree ← Sh.tree
    match tree.find (Octets.toText path) with
    | .error e =>
      if has found 'f' then return false
      else because ("cannot access " ++ inQuotes path) e
    | .ok (place, _) =>
      if place.head? = some "bin" ∨ place.head? = some "usr" ∨ place.head? = some "etc" ∨
          place = [] then
        say ("changing permissions of " ++ inQuotes path ++ ": Operation not permitted")
        return false
      else
        let targets := if has found 'R' then
            (tree.below place).map fun (p, entry) => (place ++ p, entry)
          else (tree.get? place).toList.map fun entry => (place, entry)
        let changed := targets.foldl (fun tree (p, entry) =>
          match ModeChange.apply change entry.isDirectory mask entry.mode with
          | some mode => tree.alter p (entry.withMode mode)
          | none => tree) tree
        Sh.setTree changed
        return true

end MapleCompiler.Script.Tool
