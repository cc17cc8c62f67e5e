import NetPool.Claim.Basic

/-! Tunnel endpoints: the address of one node on one device. -/

namespace NetPool

structure Endpoint where
  device : String
  address : Address
  owner : String
deriving DecidableEq

def Endpoint.ofEntry (l : KeyLayout) (e : KeyValue) : Except Failure Endpoint :=
  match l.parseEndpointKey e.key with
  | none => .error (.codec e.key .notEndpointKey)
  | some (device, address) => do
    let record ← ClaimRecord.decode e.key e.value
    return { device, address, owner := record.owner }

/-- A peer that appeared on a device, or left it. -/
inductive PeerChange
  | added (e : Endpoint)
  | removed (e : Endpoint)
deriving DecidableEq

def PeerChange.endpoint : PeerChange → Endpoint
  | .added e | .removed e => e

inductive Refusal
  | deviceNotReady (device : String)
  | failed (reason : String)
deriving DecidableEq

def Refusal.message : Refusal → String
  | .deviceNotReady device => "device " ++ device ++ " is not ready"
  | .failed reason => reason

end NetPool
