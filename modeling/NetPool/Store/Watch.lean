import NetPool.Program

/-! Following a scope of the store. A consumer starts from a snapshot and goes on from a cursor; when
the history behind its cursor is gone it gets a snapshot again. -/

namespace NetPool

/-- What a consumer does to its view: replace it, or apply changes in order. -/
inductive Update
  | snapshot (entries : List KeyValue)
  | events (events : List Event)
deriving DecidableEq

/-- An update, and the revision up to which it covers the store. -/
structure Observation where
  update : Update
  cursor : Nat
deriving DecidableEq

namespace Observation

def ofSnapshot (scope : Scope) (s : Snapshot) : Observation where
  update := .snapshot (s.entries.filter (scope.covers ·.key))
  cursor := s.revision

/-- A cursor never goes back. -/
def ofBatch (cursor : Nat) (b : Batch) : Observation where
  update := .events b.events
  cursor := max b.revision cursor

end Observation

def readScope (scope : Scope) : Program (Except StoreError Observation) := do
  return (← Program.store (.range scope.start)).map (.ofSnapshot scope)

/-- The next update after a cursor, or a snapshot where there is no cursor to go on from. -/
def watchFrom (scope : Scope) : Option Nat → Program (Except StoreError Observation)
  | none => readScope scope
  | some cursor => do
    match ← Program.store (.watch scope cursor) with
    | .ok batch => return .ok (.ofBatch cursor batch)
    | .error (.compacted _ _) => readScope scope
    | .error e => return .error e

end NetPool
