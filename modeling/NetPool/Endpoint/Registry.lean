import NetPool.Program

/-! Endpoint records in the store: publishing, withdrawing and listing them. -/

namespace NetPool

structure EndpointRegistry where
  layout : KeyLayout
  identity : String

namespace EndpointRegistry

/-- Publishes an address on a device, unless there is a record of it; whether one was written. -/
def register (r : EndpointRegistry) (device : String) (address : Address) : Operation Bool :=
  .underLock (r.layout.endpointMutex device) do
    match ← Operation.store (.create (r.layout.endpointKey device address)
        (ClaimRecord.ofOwner r.identity).encode) with
    | .created _ => return true
    | .alreadyExists => return false

/-- Removes the record of an address, if this node owns it. -/
def deregister (r : EndpointRegistry) (device : String) (address : Address) : Operation Bool := do
  let key := r.layout.endpointKey device address
  match ← Operation.store (.get key) with
  | none => return false
  | some e =>
    let record ← ClaimRecord.decode key e.value
    if record.owner ≠ r.identity then return false
    else Operation.store (.delete key)

/-- The endpoints of other nodes among entries of the store. -/
def peersIn (r : EndpointRegistry) (entries : List KeyValue) : List Endpoint :=
  (decodeClaims (Endpoint.ofEntry r.layout) entries).filter (·.owner ≠ r.identity)

def peers (r : EndpointRegistry) (device : String) : Operation (List Endpoint) := do
  return r.peersIn (← Operation.store (.range (r.layout.deviceStart device))).entries

end EndpointRegistry

end NetPool
