import NetPool.Claim.Layout
import NetPool.Claim.Record

/-! Claims as read from the store. -/

namespace NetPool

/-- A block held by a node. -/
structure RangeClaim where
  pool : String
  range : AddressRange
  owner : String
deriving DecidableEq

/-- A subnet leased to a node until a deadline. -/
structure SubnetClaim where
  pool : String
  subnet : Subnet
  owner : String
  expiration : UInt64
deriving DecidableEq

/-- An address tied to a workload. -/
structure FixedClaim where
  pool : String
  address : Address
  owner : String
  workload : String
deriving DecidableEq

inductive Claim
  | range (c : RangeClaim)
  | subnet (c : SubnetClaim)
  | fixed (c : FixedClaim)
deriving DecidableEq

def RangeClaim.ofEntry (l : KeyLayout) (e : KeyValue) : Except Failure RangeClaim :=
  match l.parseRangeKey e.key with
  | none => .error (.codec e.key .notRangeKey)
  | some (pool, range) => do
    let record ← ClaimRecord.decode e.key e.value
    return { pool, range, owner := record.owner }

namespace SubnetClaim

/-- A lease written without a deadline ends at the last instant there is. -/
def ofEntry (l : KeyLayout) (e : KeyValue) : Except Failure SubnetClaim :=
  match l.parseSubnetKey e.key with
  | none => .error (.codec e.key .notSubnetKey)
  | some (pool, subnet) => do
    let record ← ClaimRecord.decode e.key e.value
    return { pool, subnet, owner := record.owner
             expiration := record.expiration.getD 0xFFFFFFFFFFFFFFFF }

def isExpired (c : SubnetClaim) (now : UInt64) : Bool := c.expiration ≤ now

end SubnetClaim

def FixedClaim.ofEntry (l : KeyLayout) (e : KeyValue) : Except Failure FixedClaim :=
  match l.parseFixedKey e.key with
  | none => .error (.codec e.key .notFixedKey)
  | some (pool, address) => do
    let record ← ClaimRecord.decode e.key e.value
    return { pool, address, owner := record.owner, workload := record.workload.getD "" }

namespace Claim

def kind : Claim → PoolKind
  | .range _ => .range
  | .subnet _ => .subnet
  | .fixed _ => .fixed

def pool : Claim → String
  | .range c => c.pool
  | .subnet c => c.pool
  | .fixed c => c.pool

def owner : Claim → String
  | .range c => c.owner
  | .subnet c => c.owner
  | .fixed c => c.owner

def addresses : Claim → AddressRange
  | .range c => c.range
  | .subnet c => c.subnet.range
  | .fixed c => .single c.address

end Claim

/-- The entries that decode; the others are passed over. -/
def decodeClaims (decode : KeyValue → Except Failure α) (entries : List KeyValue) : List α :=
  entries.filterMap fun e => (decode e).toOption

end NetPool
