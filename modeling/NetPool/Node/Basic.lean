import NetPool.Allocation.Table
import NetPool.Cache.Store
import NetPool.Endpoint.Registry
import NetPool.Node.Health
import NetPool.Node.Identity
import NetPool.Reconcile.Basic

/-! A node: its configuration, its pools, and what it holds. -/

namespace NetPool

structure Node where
  config : NodeConfig
  identity : String
  pools : List Pool
  leases : List SubnetClaim := []
  health : Health := {}
  running : Bool := false
  chores : List Nat := []

namespace Node

/-- A node from a valid configuration. -/
def ofConfig (c : NodeConfig) (hostname : Option String) (t : FileTree) : Except Trouble Node := do
  Trouble.during .checkingConfig c.validate
  let identity ← c.resolveIdentity hostname t
  return { config := c, identity, pools := ← c.buildPools }

def layout (n : Node) : KeyLayout := .ofRoot n.config.store.root

def cache (n : Node) : RangeCache := { dataDir := n.config.dataDir }

def leaseAllocator (n : Node) : LeaseAllocator := { layout := n.layout, ttl := n.config.leaseTtl }

def allocators (n : Node) : Allocators where
  blocks := some { layout := n.layout }
  leases := some n.leaseAllocator
  pins := some { layout := n.layout }

def registry (n : Node) : EndpointRegistry := { layout := n.layout, identity := n.identity }

def reconciler (n : Node) : Reconciler := { layout := n.layout, identity := n.identity }

def pool (n : Node) (name : String) : Except Failure Pool :=
  match n.pools.find? (·.name = name) with
  | some p => .ok p
  | none => .error (.invalid (.unknownPool name))

def allocate (n : Node) (pool : String) (r : AllocationRequest) : Operation Claim := do
  n.allocators.allocate (← n.pool pool) r

/-- Allocates for the node itself. -/
def allocateLocal (n : Node) (pool : String) : Operation Claim :=
  n.allocate pool { owner := n.identity }

def release (n : Node) (pool : String) (c : Claim) : Operation Unit := do
  n.allocators.release (← n.pool pool) c

def poolNames (n : Node) (kind : PoolKind) : List String :=
  (n.pools.filter (·.kind = kind)).map (·.name)

/-- The subnet of a pool held before a restart. -/
def previousSubnet (n : Node) (pool : String) : Except Trouble (Option Subnet) :=
  match (n.config.pools.find? (·.name = pool)).bind (·.previousSubnet) with
  | none => .ok none
  | some s => Trouble.during (.previousSubnet pool)
      (((Subnet.parse s).mapError ([.address ·])).map some)

end Node

end NetPool
