import NetPool.Allocation.Block
import NetPool.Allocation.Lease
import NetPool.Allocation.Pin

/-! One allocator for each kind of pool, chosen by the kind. -/

namespace NetPool

structure AllocationRequest where
  owner : String
  /-- The subnet held before a restart. -/
  previous : Option Subnet := none
  /-- The workload that a single address is for. -/
  workload : Option String := none

structure Allocators where
  blocks : Option BlockAllocator
  leases : Option LeaseAllocator
  pins : Option PinAllocator

inductive Allocator
  | blocks (a : BlockAllocator)
  | leases (a : LeaseAllocator)
  | pins (a : PinAllocator)

namespace Allocator

def allocate (p : Pool) (r : AllocationRequest) : Allocator → Operation Claim
  | .blocks a => Claim.range <$> a.allocate p r.owner
  | .leases a => Claim.subnet <$> a.acquire p r.owner r.previous
  | .pins a =>
    match r.workload with
    | none => Operation.invalid .workloadMissing
    | some workload => Claim.fixed <$> a.claim p r.owner workload

def release (p : Pool) : Allocator → Claim → Operation Unit
  | .blocks a, .range c => liftM (a.release c)
  | .blocks _, c => Operation.invalid (.unreleasable .range c.kind)
  | .leases a, .subnet c => a.release c
  | .leases _, c => Operation.invalid (.unreleasable .subnet c.kind)
  | .pins a, .fixed c => discard (a.release p c.workload)
  | .pins _, c => Operation.invalid (.unreleasable .fixed c.kind)

end Allocator

namespace Allocators

def find? (t : Allocators) : PoolKind → Option Allocator
  | .range => t.blocks.map .blocks
  | .subnet => t.leases.map .leases
  | .fixed => t.pins.map .pins

def get (t : Allocators) (kind : PoolKind) : Operation Allocator :=
  match t.find? kind with
  | some a => return a
  | none => Operation.invalid (.noAllocator kind)

def allocate (t : Allocators) (p : Pool) (r : AllocationRequest) : Operation Claim := do
  (← t.get p.kind).allocate p r

/-- A claim goes back only into a pool of its own kind. -/
def release (t : Allocators) (p : Pool) (c : Claim) : Operation Unit := do
  if c.kind ≠ p.kind then Operation.invalid (.foreignClaim c.kind p.kind p.name)
  (← t.get p.kind).release p c

end Allocators

end NetPool
