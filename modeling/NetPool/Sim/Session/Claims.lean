import NetPool.Reconcile.Sweep
import NetPool.Sim.Session.Basic

/-! Steps of the allocators, of the reconciler and of the endpoint registry. -/

namespace NetPool.Sim.Session

def blocks (cached : Bool) : Act BlockAllocator := do
  let s ← get
  let a : BlockAllocator := { layout := s.layout, cached }
  return { a with retry := s.retry.getD a.retry }

def leases (retry : Option Retry) : Act LeaseAllocator := do
  let s ← get
  let a : LeaseAllocator := { layout := s.layout, ttl := s.ttl }
  return { a with retry := (retry.or s.retry).getD a.retry }

def pins (retry : Option Retry) : Act PinAllocator := do
  let s ← get
  let a : PinAllocator := { layout := s.layout }
  return { a with retry := (retry.or s.retry).getD a.retry }

def table (kinds : List PoolKind) : Act Allocators := do
  let b ← blocks true
  let l ← leases none
  let p ← pins none
  return { blocks := if kinds.contains .range then some b else none
           leases := if kinds.contains .subnet then some l else none
           pins := if kinds.contains .fixed then some p else none }

def allocator (kind : PoolKind) : Act Allocator := do
  existing "kind" ((← table [.range, .subnet, .fixed]).find? kind)

/-- A slot that a random choice is to end at, and the attempts it may take. -/
structure Steer (α : Type) where
  slot : α
  attempts : Nat

def Steer.retry (s : Steer α) : Retry := { attempts := s.attempts, backoff := 0 }

/-- Lets only one key be created while an operation runs. -/
def steered (key : Option String) (o : Operation α) : Act α := do
  change fun w => { w with steer := key }
  let a ← access
  let limit := (← read).limit
  let r ← onWorld fun w => w.run a limit o.outcome
  change fun w => { w with steer := none }
  match r with
  | some r => ofResult .failure r
  | none => throw .blocked

def acquire (p : Pool) (owner : String) (previous : Option Subnet) (steer : Option (Steer Subnet)) :
    Act SubnetClaim := do
  let a ← leases (steer.map (·.retry))
  steered (steer.map fun s => a.layout.subnetKey p.name s.slot) (a.acquire p owner previous)

def assign (p : Pool) (workload : String) (steer : Option (Steer Address)) : Act Address := do
  let a ← pins (steer.map (·.retry))
  steered (steer.map fun s => a.layout.fixedKey p.name s.slot) (a.assign p (← read).node workload)

/-- Claims a block for each owner at once, in the order of the owners. A lock may be held for the first
millisecond. -/
def claimMany (p : Pool) (hold : Option String) (owners : List String) :
    Act (List (Except Failure RangeClaim)) := do
  let b ← blocks true
  let a ← access
  let deadline := (← get).world.now + (← read).limit
  let inTime {α : Type} (act : Nat → World → Option α × World) : Act α := do
    match ← onWorld fun w => act (deadline - w.now) w with
    | some x => return x
    | none => throw .blocked
  let grant ← hold.mapM fun name => do
    ofResult .store (← inTime fun span w => w.run a span (Program.store (.lock name)))
  let processes ← owners.mapM fun owner =>
    onWorld fun w => w.spawn a (.allocate (b.allocate p owner).outcome)
  grant.forM fun grant => do
    ofResult .store (← inTime fun span w => w.runHolding a span [grant] do
      Program.sleep 1
      Program.store (.unlock grant))
  inTime fun span w => w.allocations processes span

def drainLeases (p : Pool) (limit : Nat) : Act (List Subnet × Option Failure) := do
  let a ← leases none
  let (found, stop) ← complete (← access)
    (drain (fun owner => a.acquire p owner none) (fun _ c => a.release c) limit)
  return ((found.map (·.subnet)).mergeSort Subnet.atMost, stop)

def spreadLeases (p : Pool) (owner : String) (times : Nat) : Act (List Subnet) := do
  return ((← operate (spread (← leases none) p owner times)).mergeSort Subnet.atMost).eraseDups

def drainPins (p : Pool) (limit : Nat) : Act (List Address × Option Failure) := do
  let a ← pins none
  let owner := (← read).node
  let (found, stop) ← complete (← access)
    (drain (fun workload => a.assign p owner workload) (fun workload _ => a.release p workload) limit)
  return (found.mergeSort (· ≤ ·), stop)

/-- Takes back the addresses of all workloads but these. -/
def collect (p : Pool) (live : List String) : Act Nat := do
  operateAs { ← access with live } ((← pins none).collect p)

def reconciler : Act Reconciler := do
  return { layout := (← get).layout, identity := (← read).node }

def registry : Act EndpointRegistry := do
  return { layout := (← get).layout, identity := (← read).node }

def loopOf (configured : List String) (interval : Nat) (jitter : Float) : Act ReconcileLoop := do
  return { reconciler := ← reconciler, configured, interval, jitter }

def pauses (l : ReconcileLoop) (count : Nat) : Act (List Nat) :=
  complete direct ((List.range count).mapM fun _ => l.nextPause)

end NetPool.Sim.Session
