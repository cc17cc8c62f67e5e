import NetPool.Failure
import NetPool.Text.Bytes

/-! A tree of files and directories, and paths in it. -/

namespace NetPool

/-- The name of a file by the names on the way to it. -/
abbrev Place := List String

inductive FileEntry
  | file (content : Bytes)
  | directory
deriving DecidableEq

structure FileTree where
  /-- Each place once; the places on the way to it are directories. -/
  entries : List (Place × FileEntry)
  /-- The directory that relative paths start from. -/
  home : Place
deriving DecidableEq

/-- A path with another one after it; a path from the root stands alone. -/
def joinPath (base name : String) : String :=
  if startsWith name "/" then name
  else if base = "" ∨ base.toList.getLast? = some '/' then base ++ name
  else base ++ "/" ++ name

namespace FileTree

def empty (home : Place) : FileTree where
  entries := (List.range home.length).map fun n => (home.take (n + 1), .directory)
  home := home

/-- The root is always there. -/
def entry? (t : FileTree) (p : Place) : Option FileEntry :=
  if p = [] then some .directory else (t.entries.find? (·.1 = p)).map (·.2)

def isFile (t : FileTree) (p : Place) : Bool :=
  match t.entry? p with
  | some (.file _) => true
  | _ => false

def set (t : FileTree) (p : Place) (e : FileEntry) : FileTree :=
  { t with entries := t.entries.filter (·.1 ≠ p) ++ [(p, e)] }

/-- Takes a place away with all that lies below it. -/
def remove (t : FileTree) (p : Place) : FileTree :=
  { t with entries := t.entries.filter fun e => !p.isPrefixOf e.1 }

def names (t : FileTree) (p : Place) : List String :=
  t.entries.filterMap fun e =>
    if e.1.dropLast = p ∧ e.1 ≠ [] then e.1.getLast? else none

def needDirectory (t : FileTree) (p : Place) : Except FileFault Unit :=
  match t.entry? p with
  | some .directory => .ok ()
  | some (.file _) => .error .notDirectory
  | none => .error .notFound

/-- Bytes that a path may have. -/
def longestPath : Nat := 4095

/-- Bytes that one name may have. -/
def longestName : Nat := 255

/-- The names a path is made of, and where it starts. -/
def parts (t : FileTree) (path : String) : Except FileFault (Place × List String) :=
  let s := path.toList
  if s.contains '\x00' then .error .invalidName
  else if path = "" then .error .notFound
  else if longestPath < path.utf8ByteSize then .error .nameTooLong
  else .ok (if s.head? = some '/' then [] else t.home, (s.splitOn '/').map String.ofList)

/-- Follows names from a place. Each step starts from a directory, where a name that is too long is
looked up in vain; the last name need not exist. -/
def follow (t : FileTree) (p : Place) : List String → Except FileFault Place
  | [] => .ok p
  | name :: rest => do
    t.needDirectory p
    if name = "" ∨ name = "." then t.follow p rest
    else if name = ".." then t.follow p.dropLast rest
    else if longestName < name.utf8ByteSize then throw .nameTooLong
    else t.follow (p ++ [name]) rest

def locate (t : FileTree) (path : String) : Except FileFault Place := do
  let (start, names) ← t.parts path
  t.follow start names

/-- The directory that names lead to, made now if only the last name leads nowhere. -/
def makeDirectory (t : FileTree) (start : Place) (names : List String) :
    Except FileFault FileTree := do
  let p ← t.follow start names
  match t.entry? p with
  | some .directory => return t
  | some (.file _) => throw .notDirectory
  | none => return t.set p .directory

/-- Makes the first directory of a list; the others are those around it, and are made before it if it
cannot be made at once. What was made stays, also if a later one cannot be made. -/
def makeInside (t : FileTree) (start : Place) :
    List (List String) → Except FileFault Unit × FileTree
  | [] => (.ok (), t)
  | names :: outer =>
    match t.makeDirectory start names with
    | .ok t => (.ok (), t)
    | .error .notFound =>
      match t.makeInside start outer with
      | (.error e, t) => (.error e, t)
      | (.ok (), t) =>
        match t.makeDirectory start names with
        | .ok t => (.ok (), t)
        | .error e => (.error e, t)
    | .error e => (.error e, t)

/-- The names of a directory and of those around it, the outermost last. A name that leads nowhere else
counts in the directory itself and at the start of a path. -/
def enclosing (names : List String) : List (List String) :=
  let moves (name : String) : Bool := name ≠ "" && name ≠ "."
  let steps := match names with
    | "." :: rest => "." :: rest.filter moves
    | _ => names.filter moves
  names :: ((List.range steps.length).drop 1).reverse.map steps.take

/-- Makes a directory and those on the way to it that are missing. -/
def makeDirectories (t : FileTree) (path : String) : Except FileFault Unit × FileTree :=
  if path = "" then (.ok (), t)
  else match t.parts path with
    | .error e => (.error e, t)
    | .ok (start, names) =>
      t.makeInside start (enclosing (names.reverse.dropWhile (· = "")).reverse)

def read (t : FileTree) (path : String) : Except FileFault Bytes := do
  match t.entry? (← t.locate path) with
  | some (.file content) => return content
  | some .directory => throw .isDirectory
  | none => throw .notFound

def readText (t : FileTree) (path : String) : Except FileFault String := do
  match Text.ofUtf8? (← t.read path) with
  | some s => return s
  | none => throw .notText

/-- Sets the content of a file; the directory it lies in has to be there. -/
def write (t : FileTree) (path : String) (content : Bytes) : Except FileFault FileTree := do
  let p ← t.locate path
  match t.entry? p with
  | some .directory => throw .isDirectory
  | _ => return t.set p (.file content)

def leadsAnywhere (t : FileTree) (path : String) : Bool :=
  match t.locate path with
  | .error _ => false
  | .ok p => (t.entry? p).isSome

def leadsToFile (t : FileTree) (path : String) : Bool :=
  match t.locate path with
  | .error _ => false
  | .ok p => t.isFile p

/-- Writes a file into a directory that is made if it is missing. -/
def writeInside (t : FileTree) (directory path : String) (content : Bytes) :
    Except FileFault Unit × FileTree :=
  match t.makeDirectories directory with
  | (.error e, t) => (.error e, t)
  | (.ok (), t) =>
    match t.write path content with
    | .error e => (.error e, t)
    | .ok t => (.ok (), t)

/-- Writes a file and makes the directories on the way to it. -/
def lay (t : FileTree) (path : String) (content : Bytes) : Except FileFault FileTree :=
  let parent := (path.toList.reverse.dropWhile (· ≠ '/')).reverse
  let (done, t) := t.writeInside (String.ofList parent) path content
  done.map fun _ => t

/-- Every file of one name below the home directory, by its path from there. -/
def filesNamed (t : FileTree) (name : String) : List (String × Bytes) :=
  t.entries.filterMap fun (p, e) =>
    match t.home.isPrefixOf? p, e with
    | some rest, .file content =>
      if rest.getLast? = some name then some (String.intercalate "/" rest, content) else none
    | _, _ => none

/-- Opens a file, made now if it is missing. -/
def touch (t : FileTree) (path : String) : Except FileFault FileTree := do
  let p ← t.locate path
  match t.entry? p with
  | some .directory => throw .isDirectory
  | some (.file _) => return t
  | none => return t.set p (.file [])

/-- Moves a file over another one. -/
def rename (t : FileTree) (source target : String) : Except FileFault FileTree := do
  let content ← t.read source
  let t' ← t.write target content
  return t'.remove (← t.locate source)

end FileTree

end NetPool
