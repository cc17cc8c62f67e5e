import NetPool.Sim.Session.Basic

/-! Steps of whole nodes. They speak to the store without faults, and their wall clock stands still. -/

namespace NetPool.Sim.Session

def nodeClock : UInt64 := 1700000000000

def setStation (x : Station) : Act Unit := do
  let c ← read
  modify fun s => { s with stations := s.stations.give c.name x }

/-- A node as the process that it runs in has left it. -/
def Station.seen (x : Station) (p : Process) : Station :=
  match p.outcome? with
  | some (.node n verdict) => { x with node := n, process := none, verdict := some verdict }
  | _ => match p.task with
    | .node c => { x with node := c.node }
    | _ => x

def station : Act Station := do
  let x ← existing "id" ((← get).stations.named? (← read).name)
  let x := match x.process.bind ((← get).world.process? ·) with
    | none => x
    | some p => Station.seen x p
  setStation x
  return x

def signalStation (x : Station) : Act Unit := change fun w => w.signal x.access.signal

/-- Sets up a node on the store of the session, or on one of its own. -/
def openStation (c : NodeConfig) (ownStore : Bool) : Act Station := do
  let s ← get
  let node ← ofResult .trouble (Node.ofConfig c s.hostname s.world.files)
  (s.stations.named? (← read).name).forM signalStation
  let store ← if ownStore then onWorld fun w => w.newStore (.empty c.store.historyLimit) else pure 0
  let signal ← onWorld fun w => w.newSignal
  let failures ← onWorld fun w => w.newFailures
  let x : Station := {
    node
    access := { store, deadline := some c.store.requestTimeout, faulty := false, cache := node.cache
                clock := some nodeClock, signal, failures := some failures } }
  setStation x
  return x

/-- Starts a node; a start that does not end in time is given up. -/
def startStation (purpose : Purpose) : Act (List SyncReport) := do
  let x ← station
  let limit := (← read).limit
  let p ← onWorld fun w => w.spawn x.access (.node { node := x.node, purpose })
  change fun w => w.runAhead p limit
  let process ← existing "process" ((← get).world.process? p)
  let seen := Station.seen { x with verdict := none } process
  change fun w => w.abandon p
  setStation { x with node := seen.node }
  match seen.verdict with
  | some verdict => ofResult .trouble verdict
  | none => throw .blocked

def stopStation : Act Unit := do
  let x ← station
  setStation { x with node := ← complete x.access x.node.stop }

def runStation (signalled : Bool) : Act Unit := do
  let x ← station
  if signalled then signalStation x
  let p ← onWorld fun w => w.spawn x.access (.node { node := x.node, purpose := .run })
  setStation { x with process := some p }

def operateStation (o : Node → Operation α) : Act α := do
  let x ← station
  operateAs x.access (o x.node)

/-- Whether a node is asked to stop in time. -/
def awaitSignal : Act Bool := do
  let x ← station
  let wait := (← read).wait
  onWorld fun w => w.waitUntil wait (·.signalled.contains x.access.signal)

def stationRevision (x : Station) : Act Nat := do
  return (((← get).world.store? x.access.store).map (·.revision)).getD 0

end NetPool.Sim.Session
