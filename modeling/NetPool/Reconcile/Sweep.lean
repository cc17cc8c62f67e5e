import NetPool.Program

/-! Removing every record of a node that has left. -/

namespace NetPool

structure SweepReport where
  examined : Nat
  deleted : Nat
deriving DecidableEq

/-- Deletes what a node owns among entries that were read, counting on from `n`. -/
def sweepEntries (identity : String) : List KeyValue → Nat → Operation Nat
  | [], n => return n
  | e :: rest, n => do
    if heldByOwner e then
      let gone ← Operation.store (.delete e.key)
      sweepEntries identity rest (if gone then n + 1 else n)
    else sweepEntries identity rest n
where
  heldByOwner (e : KeyValue) : Bool :=
    ((ClaimRecord.decode? e.value).map (·.owner)) = some identity

/-- Deletes all records of a node: claims of every kind, and endpoints. Entries that do not decode are
left alone. -/
def sweep (l : KeyLayout) (identity : String) : Operation SweepReport := do
  let found ← Operation.store (.range l.rootStart)
  return { examined := found.entries.length, deleted := ← sweepEntries identity found.entries 0 }

end NetPool
