import NetPool.Allocation.Retry
import NetPool.Pool.Search

/-! Single addresses, each pinned to a workload. There is no lock: two nodes that pin one workload at
once both find out which claim was created first, and keep that one. -/

namespace NetPool

structure PinAllocator where
  layout : KeyLayout
  retry : Retry := ⟨5, 20⟩

/-- A claim and the revision at which it was created. -/
structure Pin where
  created : Nat
  claim : FixedClaim
deriving DecidableEq

/-- The first of the pins created earliest. -/
def earliest : List Pin → Option Pin
  | [] => none
  | a :: rest =>
    match earliest rest with
    | none => some a
    | some b => if b.created < a.created then some b else some a

namespace PinAllocator

def pinOf (l : KeyLayout) (e : KeyValue) : Except Failure Pin := do
  return { created := e.created, claim := ← FixedClaim.ofEntry l e }

def pins (a : PinAllocator) (pool : String) : Operation (List Pin) :=
  readClaims a.layout .fixed pool pinOf

def claims (a : PinAllocator) (pool : String) : Operation (List FixedClaim) :=
  readClaims a.layout .fixed pool FixedClaim.ofEntry

def pinned (workload : String) (pins : List Pin) : Option FixedClaim :=
  (earliest (pins.filter (·.claim.workload = workload))).map (·.claim)

def pickFree (p : Pool) (pins : List Pin) : Operation Address := do
  let free := Search.freeAddresses p (pins.map fun pin => .single pin.claim.address)
  match ← Search.randomFree free with
  | none => throw (.capacityExhausted p.name 1)
  | some address => return address

/-- After a claim was created: an earlier pin of the workload wins, and the new claim goes. -/
def settle (a : PinAllocator) (p : Pool) (claim : FixedClaim) : Operation FixedClaim := do
  match pinned claim.workload (← a.pins p.name) with
  | none => return claim
  | some winner =>
    if winner.address = claim.address then return claim
    else
      discard (Operation.store (.delete (a.layout.fixedKey p.name claim.address)))
      return winner

def tryClaim (a : PinAllocator) (p : Pool) (owner workload : String) :
    Operation (Option FixedClaim) := do
  let pins ← a.pins p.name
  match pinned workload pins with
  | some claim => return some claim
  | none =>
    let address ← pickFree p pins
    let value := ClaimRecord.encode { owner, workload := some workload }
    match ← Operation.store (.create (a.layout.fixedKey p.name address) value) with
    | .alreadyExists => return none
    | .created _ => return some (← a.settle p { pool := p.name, address, owner, workload })

def claim (a : PinAllocator) (p : Pool) (owner workload : String) : Operation FixedClaim := do
  if p.kind ≠ .fixed then Operation.invalid (.poolKind p.name p.kind)
  if workload = "" then Operation.invalid .workloadEmpty
  a.retry.run p.name (a.tryClaim p owner workload)

def assign (a : PinAllocator) (p : Pool) (owner workload : String) : Operation Address := do
  return (← a.claim p owner workload).address

def release (a : PinAllocator) (p : Pool) (workload : String) : Operation Bool := do
  (← a.claims p.name).foldlM (fun released c => do
    if c.workload = workload then
      return (← Operation.store (.delete (a.layout.fixedKey c.pool c.address))) || released
    else return released) false

/-- Deletes the claims whose workload is gone; how many there were. -/
def collect (a : PinAllocator) (p : Pool) : Operation Nat := do
  (← a.claims p.name).foldlM (fun n c => do
    if ← Program.isLive c.workload then return n
    else if ← Operation.store (.delete (a.layout.fixedKey c.pool c.address)) then return n + 1
    else return n) 0

end PinAllocator

end NetPool
