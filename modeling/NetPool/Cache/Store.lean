import NetPool.Cache.Entries
import NetPool.Files.Tree
import NetPool.Program

/-! Ranges on file. Each pool has a directory of its own below the data directory; a change rewrites
the whole file beside it and moves the new one over the old one, under a lock file. -/

namespace NetPool

structure RangeCache where
  dataDir : String
deriving DecidableEq

namespace RangeCache

def fileName : String := "rangeset_cache"

def poolPath (c : RangeCache) (pool : String) : String := joinPath c.dataDir pool

def path (c : RangeCache) (pool : String) : String := joinPath (c.poolPath pool) fileName

def lockPath (c : RangeCache) (pool : String) : String := joinPath (c.poolPath pool) ".lock"

def spare (c : RangeCache) (pool : String) : String :=
  joinPath (c.poolPath pool) (fileName ++ ".tmp")

/-- The ranges on file, in their order. Without a file there are none. -/
def load (c : RangeCache) (t : FileTree) (pool : String) : Except Failure (List AddressRange) :=
  match t.readText (c.path pool) with
  | .ok content => .ok (Cache.entries content)
  | .error .notFound => .ok []
  | .error f => .error (.cache (c.path pool) (.file f))

def lock (c : RangeCache) (t : FileTree) (pool : String) : Except Failure Unit × FileTree :=
  match t.makeDirectories (c.poolPath pool) with
  | (.error f, t) => (.error (.cache (c.poolPath pool) (.file f)), t)
  | (.ok (), t) =>
    match t.touch (c.lockPath pool) with
    | .error f => (.error (.cache (c.lockPath pool) (.file f)), t)
    | .ok t => (.ok (), t)

/-- Replaces the file of a pool. A rewrite that fails leaves the old one. -/
def rewrite (c : RangeCache) (t : FileTree) (pool : String) (ranges : List AddressRange) :
    Except Failure Unit × FileTree :=
  match t.write (c.spare pool) (Text.utf8 (Cache.render ranges)) with
  | .error f => (.error (.cache (c.path pool) (.file f)), t)
  | .ok t =>
    match t.rename (c.spare pool) (c.path pool) with
    | .error f => (.error (.cache (c.path pool) (.file f)), t)
    | .ok t => (.ok (), t)

/-- A way to put the ranges of a pool on file. -/
abbrev Rewriting := FileTree → String → List AddressRange → Except Failure Unit × FileTree

def appendBy (c : RangeCache) (rewrite : Rewriting) (t : FileTree) (pool : String)
    (r : AddressRange) : Except Failure Unit × FileTree :=
  match c.lock t pool with
  | (.error e, t) => (.error e, t)
  | (.ok (), t) =>
    match c.load t pool with
    | .error e => (.error e, t)
    | .ok ranges =>
      match Cache.overlapping? r ranges with
      | some cached => (.error (.cache (c.path pool) (.overlap r cached)), t)
      | none => rewrite t pool (ranges ++ [r])

/-- Adds a range that overlaps none on file. -/
def append (c : RangeCache) (t : FileTree) (pool : String) (r : AddressRange) :
    Except Failure Unit × FileTree :=
  c.appendBy c.rewrite t pool r

def deleteBy (c : RangeCache) (rewrite : Rewriting) (t : FileTree) (pool : String)
    (r : AddressRange) : Except Failure (Option AddressRange) × FileTree :=
  match c.lock t pool with
  | (.error e, t) => (.error e, t)
  | (.ok (), t) =>
    match c.load t pool with
    | .error e => (.error e, t)
    | .ok ranges =>
      match Cache.overlapping? r ranges with
      | none => (.ok none, t)
      | some found =>
        let (done, t) := rewrite t pool (Cache.without r ranges)
        (done.map fun _ => some found, t)

/-- Takes away the first range on file that overlaps `r`. -/
def delete (c : RangeCache) (t : FileTree) (pool : String) (r : AddressRange) :
    Except Failure (Option AddressRange) × FileTree :=
  c.deleteBy c.rewrite t pool r

def pools (c : RangeCache) (t : FileTree) : Except Failure (List String) := do
  match t.locate c.dataDir with
  | .error .notFound => return []
  | .error f => throw (.cache c.dataDir (.file f))
  | .ok p =>
    match t.entry? p with
    | none => return []
    | some (.file _) => throw (.cache c.dataDir (.file .notDirectory))
    | some .directory =>
      return ((t.names p).filter fun n => t.leadsToFile (c.path n)).mergeSort (· ≤ ·)

/-- The parts of the ranges on file that lie in `bounds`. -/
def rangesWithin (c : RangeCache) (t : FileTree) (pool : String) (bounds : AddressRange) :
    Except Failure (List AddressRange) := do
  return (← c.load t pool).filterMap (·.intersect bounds)

/-- Whether something stands where the file of a pool belongs. -/
def present (c : RangeCache) (t : FileTree) (pool : String) : Bool := t.leadsAnywhere (c.path pool)

/-- The answer to one operation on the files, and the files after it. -/
def serve (c : RangeCache) (t : FileTree) : (r : CacheRequest) → Except Failure r.Result × FileTree
  | .load pool => (c.load t pool, t)
  | .append pool r => c.append t pool r
  | .delete pool r => c.delete t pool r
  | .pools => (c.pools t, t)

end RangeCache

end NetPool
