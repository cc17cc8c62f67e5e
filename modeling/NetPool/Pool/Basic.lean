import NetPool.Failure

/-! Address pools: the network, the bounds that candidates come from, what is held back, and how
much one allocation takes. -/

namespace NetPool

structure PoolConfig where
  name : String
  kind : PoolKind
  subnet : String
  rangeStart : Option String
  rangeEnd : Option String
  gateway : Option String
  reservedOffset : UInt32
  blockExp : Option Nat
  subnetLen : Option Nat
  previousSubnet : Option String
deriving DecidableEq

structure Pool where
  name : String
  kind : PoolKind
  network : Subnet
  bounds : AddressRange
  /-- Addresses skipped before the first candidate. -/
  reservedOffset : UInt32
  /-- Addresses never handed out one by one, ascending. -/
  reserved : List Address
  gateway : Option Address
  /-- A block has 2 to this power addresses. -/
  blockExp : Nat
  /-- The length of each leased subnet. -/
  subnetLen : Nat
deriving DecidableEq

namespace Pool

def reserve (a : Address) : List Address → List Address
  | [] => [a]
  | b :: rest => if a < b then a :: b :: rest else if a = b then b :: rest else b :: reserve a rest

/-- Blocks have 16 addresses unless the network is smaller. -/
def defaultBlockExp : Nat := 4

/-- A pool over a whole network. Its two end addresses are reserved if it has more than two. -/
def covering (name : String) (kind : PoolKind) (network : Subnet) : Pool where
  name := name
  kind := kind
  network := network
  bounds := network.range
  reservedOffset := 0
  reserved := if network.length < 31 then reserve network.network (reserve network.last []) else []
  gateway := none
  blockExp := match kind with
    | .range => min defaultBlockExp (32 - network.length)
    | _ => 0
  subnetLen := min (network.length + 8) 32

def withBounds (p : Pool) (bounds : AddressRange) : Except Failure Pool :=
  if p.network.range.containsRange bounds then .ok { p with bounds }
  else .error (.invalid (.boundsOutside p.name bounds p.network))

def withReservedOffset (p : Pool) (offset : UInt32) : Pool := { p with reservedOffset := offset }

def withBlockExp (p : Pool) (exponent : Nat) : Except Failure Pool :=
  if exponent ≤ 32 - p.network.length then .ok { p with blockExp := exponent }
  else .error (.invalid (.blockTooLarge p.name exponent p.network))

def withSubnetLen (p : Pool) (length : Nat) : Except Failure Pool :=
  if p.network.length ≤ length ∧ length ≤ 32 then .ok { p with subnetLen := length }
  else .error (.invalid (.subnetLength p.name length p.network))

def withGateway (p : Pool) (gateway : Address) : Except Failure Pool :=
  if p.network.contains gateway then
    .ok { p with reserved := reserve gateway p.reserved, gateway := some gateway }
  else .error (.invalid (.gatewayOutside p.name gateway p.network))

def firstCandidate (p : Pool) : UInt64 := p.bounds.start.toUInt64 + p.reservedOffset.toUInt64

/-- Addresses that one allocation takes. -/
def blockSize (p : Pool) : UInt64 :=
  match p.kind with
  | .range => 1 <<< UInt64.ofNat p.blockExp
  | .subnet => maskSize p.subnetLen
  | .fixed => 1

def isReserved (p : Pool) (a : Address) : Bool := p.reserved.contains a

def isCompatible (p : Pool) (s : Subnet) : Bool :=
  s.length == p.subnetLen && p.bounds.containsRange s.range

def addressOr (text : Option String) (default : Address) : Except Failure Address :=
  match text with
  | none => .ok default
  | some s => (Address.parse s).mapError .address

/-- A step that only a given setting takes. -/
def given (setting : Option α) (step : Pool → α → Except Failure Pool) (p : Pool) :
    Except Failure Pool :=
  match setting with
  | none => .ok p
  | some a => step p a

/-- Bounds from the configured ends; an end that is not given is that of the network. -/
def restricted (c : PoolConfig) (p : Pool) : Except Failure Pool :=
  if c.rangeStart = none ∧ c.rangeEnd = none then .ok p
  else do
    let start ← addressOr c.rangeStart p.network.network
    let stop ← addressOr c.rangeEnd p.network.last
    p.withBounds (← (AddressRange.ofBounds start stop).mapError .address)

def withGatewayText (p : Pool) (gateway : String) : Except Failure Pool := do
  p.withGateway (← (Address.parse gateway).mapError .address)

def ofConfig (c : PoolConfig) : Except Failure Pool := do
  if c.name = "" ∨ c.name.toList.contains '/' then throw (.invalid (.poolName c.name))
  let network ← (Subnet.parse c.subnet).mapError .address
  let p ← restricted c ((covering c.name c.kind network).withReservedOffset c.reservedOffset)
  let p ← given c.blockExp withBlockExp p
  let p ← given c.subnetLen withSubnetLen p
  let p ← given c.gateway withGatewayText p
  if p.bounds.stop.toUInt64 < p.firstCandidate then
    throw (.invalid (.noCandidates p.name p.reservedOffset p.bounds))
  return p

end Pool

end NetPool
