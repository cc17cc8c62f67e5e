import NetPool.Program
import NetPool.Text.Decimal

/-! Bringing the ranges on file and the claims in the store together, one pool at a time. A block that
the node owns in the store is put on file, in place of what overlaps it there. A range on file that
nobody owns in the store is published, and given up if another node holds some of it. -/

namespace NetPool

open Text

structure SyncReport where
  pool : String
  /-- Owned claims that were on file as they are. -/
  kept : Nat := 0
  /-- Owned claims put on file. -/
  adopted : Nat := 0
  /-- Ranges on file that made way for an owned claim. -/
  replaced : Nat := 0
  /-- Ranges on file written to the store. -/
  published : Nat := 0
  /-- Ranges on file given up. -/
  dropped : Nat := 0
deriving DecidableEq

namespace SyncReport

def changed (r : SyncReport) : Bool := 0 < r.adopted + r.replaced + r.published + r.dropped

def text (r : SyncReport) : String :=
  r.pool ++ ": kept=" ++ numeralText r.kept ++ " adopted=" ++ numeralText r.adopted ++
    " replaced=" ++ numeralText r.replaced ++ " published=" ++ numeralText r.published ++
    " dropped=" ++ numeralText r.dropped

end SyncReport

structure Reconciler where
  layout : KeyLayout
  identity : String

namespace Reconciler

/-- Takes a range off the file; whether it went. -/
def drop (pool : String) (r : AddressRange) : Program Bool := do
  match ← Program.cache (.delete pool r) with
  | .ok removed => return removed.isSome
  | .error _ => return false

/-- Takes ranges off the file; how many went. -/
def dropAll (pool : String) : List AddressRange → Program Nat
  | [] => return 0
  | r :: rest => do
    let went ← drop pool r
    let others ← dropAll pool rest
    return if went then others + 1 else others

/-- Gives up a claim that could not be put on file. -/
def disown (c : Reconciler) (pool : String) (r : AddressRange) : Program Unit :=
  match c.layout.rangeKeyFor pool r with
  | none => pure ()
  | some key => discard (Program.store (.delete key))

/-- Puts the owned claims on file, given what the file should hold by now. -/
def adopt (c : Reconciler) (pool : String) (report : SyncReport) (onFile : List AddressRange) :
    List RangeClaim → Program SyncReport
  | [] => return report
  | claim :: rest => do
    if onFile.contains claim.range then
      c.adopt pool { report with kept := report.kept + 1 } onFile rest
    else
      let gone ← dropAll pool (onFile.filter (·.overlaps claim.range))
      let report := { report with replaced := report.replaced + gone }
      let onFile := onFile.filter fun r => !r.overlaps claim.range
      match ← Program.cache (.append pool claim.range) with
      | .ok () =>
        c.adopt pool { report with adopted := report.adopted + 1 } (onFile ++ [claim.range]) rest
      | .error _ => do
        c.disown pool claim.range
        c.adopt pool report onFile rest

def giveUp (pool : String) (r : AddressRange) (report : SyncReport) : Program SyncReport := do
  return if ← drop pool r then { report with dropped := report.dropped + 1 } else report

/-- Writes a range on file to the store, unless it is owned there; what cannot be written or is held
by another node is given up. -/
def publish (c : Reconciler) (pool : String) (owned foreign : List RangeClaim)
    (report : SyncReport) (r : AddressRange) : Operation SyncReport := do
  if owned.any (·.range = r) then return report
  else if foreign.any (·.range.overlaps r) then giveUp pool r report
  else match c.layout.rangeKeyFor pool r with
    | none => giveUp pool r report
    | some key =>
      match ← Operation.store (.create key (ClaimRecord.ofOwner c.identity).encode) with
      | .created _ => return { report with published := report.published + 1 }
      | .alreadyExists => giveUp pool r report

def syncLocked (c : Reconciler) (pool : String) : Operation SyncReport := do
  let found ← Operation.store (.range (c.layout.claimStart .range pool))
  let (owned, foreign) := (decodeClaims (RangeClaim.ofEntry c.layout) found.entries).partition
    (·.owner = c.identity)
  let onFile ← Operation.cache (.load pool)
  let report ← c.adopt pool { pool } onFile owned
  (← Operation.cache (.load pool)).foldlM (c.publish pool owned foreign) report

/-- Reconciles a pool under its lock. -/
def sync (c : Reconciler) (pool : String) : Operation SyncReport :=
  .underLock (c.layout.mutex .range pool) (c.syncLocked pool)

def insertName (name : String) : List String → List String
  | [] => [name]
  | a :: rest => if name < a then name :: a :: rest else if name = a then a :: rest
      else a :: insertName name rest

/-- The pools worth reconciling, by name: those configured, those on file, and those where the store
holds a claim of this node. -/
def poolsToSync (c : Reconciler) (configured : List String) : Operation (List String) := do
  let onFile ← Operation.cache .pools
  let found ← Operation.store (.range (c.layout.kindStart .range))
  let owned := (decodeClaims (RangeClaim.ofEntry c.layout) found.entries).filter
    (·.owner = c.identity)
  return (configured ++ onFile ++ owned.map (·.pool)).foldr insertName []

def syncEach (c : Reconciler) : List String → Program (List SyncReport)
  | [] => return []
  | pool :: rest => do
    match ← (c.sync pool).outcome with
    | .ok report => return report :: (← c.syncEach rest)
    | .error _ => c.syncEach rest

/-- Reconciles every pool worth it; if they cannot be told, those configured. -/
def syncAll (c : Reconciler) (configured : List String) : Program (List SyncReport) := do
  match ← (c.poolsToSync configured).outcome with
  | .ok pools => c.syncEach pools
  | .error _ => c.syncEach configured

end Reconciler

end NetPool
