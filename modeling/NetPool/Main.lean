import NetPool.Sim.Launch
import NetPool.Text.Timestamp

/-! The command line. Files are read into a tree before a command runs, and what a node changes in the
tree is written back. The store of a node lives no longer than the node, so a clock that never goes
back is all that its leases need. -/

namespace NetPool.Shell

open Sim

def readFile (t : FileTree) (path : String) : IO FileTree := do
  try
    return ((t.lay path (← IO.FS.readBinFile path).toList).toOption).getD t
  catch _ => return t

/-- Reads the cache file of every pool in a directory. -/
def readCache (t : FileTree) (dir : String) : IO FileTree := do
  try
    let cache : RangeCache := { dataDir := dir }
    let mut t := (t.makeDirectories dir).2
    for e in ← (← IO.FS.realPath dir).readDir do
      t ← readFile t (cache.path e.fileName)
    return t
  catch _ => readFile t dir

/-- The files that an invocation looks at. -/
def readFiles (i : Command.Invocation) : IO FileTree := do
  let home := ((← IO.currentDir).toString.splitOn "/").filter (· ≠ "")
  let t ← readFile (.empty home) i.path
  match NodeConfig.ofFile t i.path with
  | .error _ => return t
  | .ok c =>
    let c := c.override i.overrides
    let t ← (c.idFile.map (readFile t)).getD (pure t)
    readCache t c.dataDir

def writeChanges (old new : FileTree) : IO Unit := do
  for (place, e) in new.entries do
    match e with
    | .directory => pure ()
    | .file content =>
      if old.entry? place ≠ some e then
        IO.FS.createDirAll ("/" ++ String.intercalate "/" place.dropLast)
        IO.FS.writeBinFile ("/" ++ String.intercalate "/" place) ⟨content.toArray⟩

def changed (path : String) : IO String := do
  try
    let m ← (← IO.FS.realPath path).metadata
    return Text.timestamp m.modified.sec m.modified.nsec.toNat
  catch _ => return "never"

def complain (t : Trouble) : IO UInt32 := do
  for cause in t.head? do IO.eprintln ("Error: " ++ cause.message)
  for cause in t.drop 1 do IO.eprintln ("  caused by: " ++ cause.message)
  return 1

/-- Runs a node in real time until it ends. -/
partial def follow (process : Nat) (w : World) (start : Nat) : IO UInt32 := do
  let now := (← IO.monoMsNow) - start
  let v := (w.advanceTo now).settle World.turns
  writeChanges w.files v.files
  match v.verdict? process with
  | some (.ok _) => return 0
  | some (.error t) => complain t
  | none =>
    let wait := min 1000 ((v.nextInstant?.getD (now + 1000)) - now)
    IO.sleep (UInt32.ofNat (max 1 wait))
    follow process v start

def run (args : List String) : IO UInt32 := do
  match Command.Invocation.ofArgs args with
  | .error e =>
    for line in Command.usage do IO.eprintln line
    return UInt32.ofNat e.exitCode
  | .ok i =>
    let t ← readFiles i
    match i.execute (← IO.getEnv "HOSTNAME") t with
    | .error t => complain t
    | .ok (.node n) =>
      let (process, w) := World.ofNode n t
      let start ← IO.monoMsNow
      follow process { w with epoch := UInt64.ofNat start } start
    | .ok o =>
      let time ← match o with
        | .cached _ path _ _ => changed path
        | _ => pure ""
      for line in o.lines time do IO.println line
      return 0

end NetPool.Shell

def main (args : List String) : IO UInt32 := NetPool.Shell.run args
