import NetPool.Activity
import NetPool.Node.Basic

/-! How a node starts, runs and stops. It starts in a fixed order: the store, a first round of
reconciling, the leases and their monitors, the endpoints, and the periodic reconciling. A lost lease
is fatal: the node stops and reports it. -/

namespace NetPool

inductive Purpose
  /-- The store, a first round of reconciling and the leases only. -/
  | trial
  | start
  /-- To run until it is asked to stop or cannot go on. -/
  | run
deriving DecidableEq

/-- How a node ended, or the reports of its first round of reconciling. -/
abbrev Verdict := Except Trouble (List SyncReport)

namespace Node

inductive Phase
  | opening
  | reconciling
  | leasing (pools : List Pool)
  | monitoring
  | registering (endpoints : List EndpointConfig)
  | following
  | looping
  | up
  | stopping (verdict : Verdict)
  | done (verdict : Verdict)

structure Course where
  node : Node
  purpose : Purpose
  phase : Phase := .opening
  reports : List SyncReport := []

/-- Updates buffered between the endpoint watch and the one who takes them. -/
def updateCapacity : Nat := 64

/-- Milliseconds that a stop waits for each chore. -/
def joinLimit : Nat := 5000

def setHealth (n : Node) (f : Health → Health) : Node := { n with health := f n.health }

def startChore (n : Node) (c : Chore) : Program Node := do
  let chore ← Program.chore (.start c)
  return { n with chores := n.chores ++ [chore] }

def startMonitors (n : Node) : List SubnetClaim → Program Node
  | [] => return n
  | claim :: rest => do
    (← n.startChore (.keepLease n.layout n.config.leaseTtl n.config.lease.renewRetry claim)).startMonitors
      rest

def followEndpoints (n : Node) : Program Node := do
  let mailbox ← Program.chore (.mailbox updateCapacity)
  let n ← n.startChore (.feed (.under n.layout.endpointStart) mailbox n.config.store.watchRetry)
  n.startChore (.follow n.layout n.identity mailbox)

def startLoop (n : Node) : Program Node :=
  n.startChore (.reconcile n.layout n.identity (n.poolNames .range) n.config.reconcileInterval
    n.config.reconcile.jitter)

def joinAll : List Nat → Program Unit
  | [] => return
  | chore :: rest => do
    Program.chore (.join chore joinLimit)
    joinAll rest

/-- Asks every chore to stop and waits for each, but not for ever. -/
def stop (n : Node) : Program Node := do
  Program.chore .signal
  joinAll n.chores
  return { n with running := false, chores := [], health := n.health.stopped }

def leaseFrom (n : Node) (p : Pool) : Program (Except Trouble SubnetClaim) := do
  match n.previousSubnet p.name with
  | .error t => return .error t
  | .ok previous =>
    return Trouble.during (.leasing p.name)
      ((← (n.leaseAllocator.acquire p n.identity previous).outcome).mapError .ofFailure)

def registerAt (n : Node) (e : EndpointConfig) : Program (Except Trouble Unit) := do
  match Address.parse e.address with
  | .error x => return .error [.during (.endpointAddress e.device), .address x]
  | .ok address =>
    return Trouble.during (.registering e.device)
      (((← (n.registry.register e.device address).outcome).mapError .ofFailure).map fun _ => ())

namespace Course

def moved (c : Course) (node : Node) (phase : Phase) : Course := { c with node, phase }

def fail (c : Course) (t : Trouble) : Course := { c with phase := .done (.error t) }

def started (c : Course) : Course :=
  let node := { c.node with running := true }
  match c.purpose with
  | .run => c.moved node .up
  | _ => c.moved node (.done (.ok c.reports))

/-- A node without subnet pools needs no leases. -/
def leaseNext (c : Course) : List Pool → Program Course
  | [] =>
    let node := c.node.setHealth fun h =>
      { h with leases := if c.node.poolNames .subnet = [] then .disabled else .healthy }
    match c.purpose with
    | .trial => return (c.moved node .opening).started
    | _ => return c.moved node .monitoring
  | p :: rest => do
    match ← c.node.leaseFrom p with
    | .error t => return c.fail t
    | .ok claim => return c.moved { c.node with leases := c.node.leases ++ [claim] } (.leasing rest)

/-- A node without endpoints follows none. -/
def registerNext (c : Course) : List EndpointConfig → Program Course
  | [] =>
    if c.node.config.endpoints = [] then
      return c.moved (c.node.setHealth fun h => { h with endpoints := .disabled }) .looping
    else return c.moved c.node .following
  | e :: rest => do
    match ← c.node.registerAt e with
    | .error t => return c.fail t
    | .ok () => return c.moved c.node (.registering rest)

def step (c : Course) : Phase → Program Course
  | .opening =>
    return c.moved (c.node.setHealth fun h => { h with store := .healthy }) .reconciling
  | .reconciling => do
    let reports ← c.node.reconciler.syncAll (c.node.poolNames .range)
    let node := c.node.setHealth fun h => { h with reconciler := .healthy }
    return { c with node, reports, phase := .leasing (node.pools.filter (·.kind = .subnet)) }
  | .leasing pools => c.leaseNext pools
  | .monitoring => do
    return c.moved (← c.node.startMonitors c.node.leases) (.registering c.node.config.endpoints)
  | .registering endpoints => c.registerNext endpoints
  | .following => do
    let node ← c.node.followEndpoints
    return c.moved (node.setHealth fun h => { h with endpoints := .healthy }) .looping
  | .looping =>
    if c.node.config.reconcile.enabled then return (c.moved (← c.node.startLoop) .looping).started
    else return c.started
  | .stopping verdict => return c.moved (← c.node.stop) (.done verdict)
  | .up | .done _ => return c

def activity (c : Course) : Activity Course (Node × Verdict) :=
  match c.phase with
  | .done verdict => .finish (c.node, verdict)
  | .up =>
    .wait { c with phase := .stopping (.ok c.reports) } none (.fatal fun e =>
      c.moved (c.node.setHealth fun h => { h with leases := .failed })
        (.stopping (.error (.ofFailure e))))
  | phase => .work (c.step phase)

end Course

end Node

end NetPool
