import NetPool.Store.Watch

/-! The peers a node knows, kept up to date from watch updates and handed to a data plane. The data
plane may refuse changes for a device that is not there yet; such a device is pending, and once a
change for it goes through, all its known peers are handed over again. -/

namespace NetPool

structure PeerView where
  layout : KeyLayout
  identity : String
  /-- Devices that refused a change, each once. -/
  pending : List String := []
  /-- Known peers by the key of their record, ascending. -/
  known : List (String × Endpoint) := []

namespace PeerView

def peers (v : PeerView) (device : String) : List Endpoint :=
  (v.known.map (·.2)).filter (·.device = device)

def isPending (v : PeerView) (device : String) : Bool := v.pending.contains device

def find? (v : PeerView) (key : String) : Option Endpoint :=
  (v.known.find? (·.1 = key)).map (·.2)

/-- Puts an endpoint where its key belongs. -/
def place (key : String) (e : Endpoint) : List (String × Endpoint) → List (String × Endpoint)
  | [] => [(key, e)]
  | a :: rest =>
    if a.1 < key then a :: place key e rest
    else if a.1 = key then (key, e) :: rest
    else (key, e) :: a :: rest

def insert (v : PeerView) (key : String) (e : Endpoint) : PeerView :=
  { v with known := place key e v.known }

def erase (v : PeerView) (key : String) : PeerView :=
  { v with known := v.known.filter (·.1 ≠ key) }

def defer (v : PeerView) (device : String) : PeerView :=
  if v.isPending device then v else { v with pending := device :: v.pending }

def undefer (v : PeerView) (device : String) : PeerView :=
  { v with pending := v.pending.filter (· ≠ device) }

/-- The endpoint an entry records, if it is that of another node. -/
def peer? (v : PeerView) (e : KeyValue) : Option Endpoint :=
  match Endpoint.ofEntry v.layout e with
  | .ok p => if p.owner = v.identity then none else some p
  | .error _ => none

/-- Hands peers over one by one, until the device turns out not to be there. -/
def replay (v : PeerView) : List Endpoint → Program PeerView
  | [] => return v
  | e :: rest => do
    match ← Program.apply (.added e) with
    | .error (.deviceNotReady device) => return v.defer device
    | _ => v.replay rest

def deviceReady (v : PeerView) (device : String) : Program PeerView :=
  if v.isPending device then (v.undefer device).replay (v.peers device) else return v

def deliver (v : PeerView) (change : PeerChange) : Program PeerView := do
  match ← Program.apply change with
  | .ok () => v.deviceReady change.endpoint.device
  | .error (.deviceNotReady device) => return v.defer device
  | .error (.failed _) => return v

def deliverAll (v : PeerView) : List PeerChange → Program PeerView
  | [] => return v
  | change :: rest => do (← v.deliver change).deliverAll rest

/-- What becomes of the view when the store holds these entries: first who left, then who came. -/
def reset (v : PeerView) (entries : List KeyValue) : Program PeerView :=
  let fresh : List (String × Endpoint) := entries.foldl (fun known e =>
    match v.peer? e with
    | some p => place e.key p known
    | none => known) []
  let gone := v.known.filter fun a => !fresh.any (·.1 = a.1)
  let new := fresh.filter fun a => v.find? a.1 ≠ some a.2
  let changes := gone.map (fun a => PeerChange.removed a.2) ++
    new.map (fun a => PeerChange.added a.2)
  deliverAll { v with known := fresh } changes

def handleEvent (v : PeerView) (e : Event) : Program PeerView :=
  match e.change with
  | .put =>
    match v.peer? e.entry with
    | none => return v
    | some p =>
      if v.find? e.entry.key = some p then return v
      else (v.insert e.entry.key p).deliver (.added p)
  | .delete =>
    match v.find? e.entry.key with
    | none => return v
    | some p => (v.erase e.entry.key).deliver (.removed p)

def handleEvents (v : PeerView) : List Event → Program PeerView
  | [] => return v
  | e :: rest => do (← v.handleEvent e).handleEvents rest

def handle (v : PeerView) : Update → Program PeerView
  | .snapshot entries => v.reset entries
  | .events events => v.handleEvents events

end PeerView

end NetPool
