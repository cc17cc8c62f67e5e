import NetPool.Allocation.Retry
import NetPool.Clock
import NetPool.Pool.Search

/-! Leased subnets. There is no lock: a node scans the leases, picks a subnet and creates its key, and
scans again if another node was faster. Leases that ended are deleted on the way, unless they have
been written since they were read. -/

namespace NetPool

structure LeaseAllocator where
  layout : KeyLayout
  /-- How long a lease lasts, in milliseconds. -/
  ttl : Nat := 24 * 60 * 60 * 1000
  retry : Retry := ⟨10, 50⟩

def heldBy (owner : String) : Option KeyValue → Bool
  | none => false
  | some e => ((ClaimRecord.decode? e.value).map (·.owner)) = some owner

def SubnetClaim.revoked (c : SubnetClaim) : Failure := .revoked c.pool c.subnet.text

namespace LeaseAllocator

def expiration (a : LeaseAllocator) (now : UInt64) : UInt64 :=
  Clock.addSaturating now (UInt64.ofNat a.ttl)

def claims (a : LeaseAllocator) (pool : String) : Operation (List SubnetClaim) :=
  readClaims a.layout .subnet pool SubnetClaim.ofEntry

/-- What of the leases read counts. A lease that ended stays if its deletion did not go through; a
lease of the owner that no longer fits the pool never counts. -/
def live (a : LeaseAllocator) (p : Pool) (owner : String) (now : UInt64) :
    List KeyValue → Operation (List SubnetClaim)
  | [] => return []
  | e :: rest =>
    match SubnetClaim.ofEntry a.layout e with
    | .error _ => a.live p owner now rest
    | .ok c => do
      if c.isExpired now then
        let gone ← Operation.store (.compareAndDelete e.key e.modified)
        let others ← a.live p owner now rest
        return if gone then others else c :: others
      else if c.owner = owner ∧ ¬ p.isCompatible c.subnet then
        discard (Operation.store (.compareAndDelete e.key e.modified))
        a.live p owner now rest
      else return c :: (← a.live p owner now rest)

/-- Creates a lease; `none` if its key is taken. -/
def create (a : LeaseAllocator) (p : Pool) (owner : String) (subnet : Subnet) :
    Operation (Option SubnetClaim) := do
  let expiration := a.expiration (← Program.now)
  let value := ClaimRecord.encode { owner, expiration := some expiration }
  match ← Operation.store (.create (a.layout.subnetKey p.name subnet) value) with
  | .created _ => return some { pool := p.name, subnet, owner, expiration }
  | .alreadyExists => return none

def write (a : LeaseAllocator) (c : SubnetClaim) : Operation SubnetClaim := do
  let expiration := a.expiration (← Program.now)
  let value := ClaimRecord.encode { owner := c.owner, expiration := some expiration }
  discard (Operation.store (.put (a.layout.subnetKey c.pool c.subnet) value))
  return { c with expiration }

/-- The subnet asked for, if the pool could lease it and no live lease is in its way. -/
def reclaimable (p : Pool) (live : List SubnetClaim) (previous : Option Subnet) : Option Subnet :=
  previous.filter fun s => p.isCompatible s && !live.any (·.subnet.overlaps s)

def createAny (a : LeaseAllocator) (p : Pool) (owner : String) (live : List SubnetClaim) :
    Operation (Option SubnetClaim) :=
  match Search.subnetCandidates p.bounds p.firstCandidate p.subnetLen (live.map (·.subnet))
      Search.candidateLimit with
  | [] => throw (.capacityExhausted p.name p.blockSize)
  | s :: rest => do
    let i ← Program.pick rest.length
    a.create p owner ((s :: rest).get i)

def tryAcquire (a : LeaseAllocator) (p : Pool) (owner : String) (previous : Option Subnet) :
    Operation (Option SubnetClaim) := do
  let now ← Program.now
  let found ← Operation.store (.range (a.layout.claimStart .subnet p.name))
  let live ← a.live p owner now found.entries
  match live.find? (·.owner = owner), reclaimable p live previous with
  | some mine, _ => return some (← a.write mine)
  | none, none => a.createAny p owner live
  | none, some s =>
    match ← a.create p owner s with
    | some c => return some c
    | none => a.createAny p owner live

/-- Leases a subnet: the live lease of the owner, else the subnet it held before, else any free
one. -/
def acquire (a : LeaseAllocator) (p : Pool) (owner : String) (previous : Option Subnet) :
    Operation SubnetClaim := do
  if p.kind ≠ .subnet then Operation.invalid (.poolKind p.name p.kind)
  a.retry.run p.name (a.tryAcquire p owner previous)

/-- Moves the end of a lease on, if the owner still holds it. -/
def renew (a : LeaseAllocator) (c : SubnetClaim) : Operation SubnetClaim := do
  if heldBy c.owner (← Operation.store (.get (a.layout.subnetKey c.pool c.subnet))) then a.write c
  else throw c.revoked

/-- Gives a lease back, if the owner still holds it. -/
def release (a : LeaseAllocator) (c : SubnetClaim) : Operation Unit := do
  let key := a.layout.subnetKey c.pool c.subnet
  if heldBy c.owner (← Operation.store (.get key)) then
    discard (Operation.store (.delete key))

end LeaseAllocator

end NetPool
