import NetPool.Sim.Session.Basic

/-! Steps at the store: its state, its locks, its watches, and the faults on the way to it. -/

namespace NetPool.Sim.Session

def store : Act Store := do existing "store" ((← get).world.store? 0)

def compact (revision : Nat) : Act Nat := do
  let (dropped, s) := (← store).compact revision
  change fun w => w.setStore 0 s
  return dropped

def failCreations (count : Nat) : Act Unit := do
  let s ← store
  change fun w => w.setStore 0 { s with failingCreations := count }

def setAvailable (value : Bool) : Act Unit := change fun w => w.setAvailable 0 value

/-- The key of a claim, if it has one. -/
def keyOf? (l : KeyLayout) : Claim → Option String
  | .range c => l.rangeKeyFor c.pool c.range
  | .subnet c => some (l.subnetKey c.pool c.subnet)
  | .fixed c => some (l.fixedKey c.pool c.address)

def recordOf : Claim → ClaimRecord
  | .range c => .ofOwner c.owner
  | .subnet c => { owner := c.owner, expiration := some c.expiration }
  | .fixed c => { owner := c.owner, workload := some c.workload }

/-- Writes the record of a claim past all allocators; a lease that never ends has no expiration. -/
def plant (c : Claim) (endless : Bool) : Act String := do
  let key ← existing "claim" (keyOf? (← get).layout c)
  let record := recordOf c
  let record := if endless then { record with expiration := none } else record
  discard (ofResult .store (← complete direct (Program.store (.put key record.encode))))
  return key

def lock (name : String) : Act (Option Grant) := do
  match ← waitFor direct (Program.store (.lock name)) with
  | none => return none
  | some grant =>
    let c ← read
    modify fun s => { s with grants := s.grants.give c.name grant }
    return some grant

def unlock (given : Option Grant) : Act Unit := do
  let c ← read
  let grant ← match given with
    | some grant => pure grant
    | none => existing "id" ((← get).grants.named? c.name)
  if given.isNone then modify fun s => { s with grants := s.grants.forget c.name }
  ofResult .store (← complete direct (Program.store (.unlock grant)))

/-- Lets go of grants in the background. -/
def letGo (grants : List Grant) : Act Unit := do
  let a ← access
  change fun w => w.releaseAll a grants

/-- Takes a lock whose grant, named, is let go of when the name is given to another one. -/
def guard (name : String) : Act (Option Grant) := do
  match ← waitFor (← access) (Program.store (.lock name)) with
  | none => return none
  | some grant =>
    let c ← read
    letGo ((← get).guards.named? c.name).toList
    modify fun s => { s with guards := s.guards.give c.name grant }
    return some grant

def takeGuard : Act (Option Grant) := do
  let c ← read
  let grant := (← get).guards.named? c.name
  modify fun s => { s with guards := s.guards.forget c.name }
  return grant

def releaseGuard : Act Unit := do request (.unlock (← existing "id" (← takeGuard)))

def dropGuard : Act Bool := do
  let grant ← takeGuard
  letGo grant.toList
  return grant.isSome

def watch (scope : Scope) (after : Nat) : Act (Option Batch) := do
  waitFor (← access) (Program.store (.watch scope after))

/-- Goes on from a cursor, or from the one that was named. -/
def resume (scope : Scope) (cursor : Option Nat) : Act (Option Observation) := do
  let c ← read
  match ← waitFor (← access) (watchFrom scope (cursor.or ((← get).cursors.named? c.name))) with
  | none => return none
  | some o =>
    modify fun s => { s with cursors := s.cursors.give c.name o.cursor }
    return some o

def sleep (ms : Nat) : Act UInt64 := do
  complete direct (Program.sleep ms)
  clock

def advance (ms : Nat) : Act UInt64 := do
  change fun w => w.moveClock ms
  clock

def slow (ms : Nat) : Act Unit := change fun w => { w with delay := ms }

def hook (h : Hook) : Act Unit := change fun w => { w with hooks := w.hooks ++ [h] }

end NetPool.Sim.Session
