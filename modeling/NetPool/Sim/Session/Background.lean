import NetPool.Sim.Session.Basic

/-! Steps about what goes on in the background: subscriptions, lease monitors, loops, and views of the
peers. -/

namespace NetPool.Sim.Session

def signal (b : Background) : Act Unit := change fun w => w.signal b.signal

def spawnWith (a : Access) (tasks : List Task) : Act Background := do
  let signal ← onWorld fun w => w.newSignal
  let processes ← tasks.mapM fun t => onWorld fun w => w.spawn { a with signal } t
  return { processes, signal }

def outcomeOf (process : Nat) : Act (Option Outcome) := do
  return ((← get).world.process? process).bind (·.outcome?)

def haveEnded (b : Background) : Act Bool := do
  return (← b.processes.mapM outcomeOf).all Option.isSome

/-- Waits for processes to end; whether they did in time. -/
def ended (b : Background) : Act Bool := do
  let wait := (← read).wait
  onWorld fun w => w.waitFor b.processes wait

/-! Subscriptions. -/

def subscription : Act Subscription := do
  existing "id" ((← get).subscriptions.named? (← read).name)

def desert (mailbox : Nat) : Act Unit := change fun w => w.desertMailbox mailbox

def subscribe (scope : Scope) (capacity retry : Nat) : Act Unit := do
  let c ← read
  match (← get).subscriptions.named? c.name with
  | none => pure ()
  | some old => signal old.feed; desert old.mailbox
  let mailbox ← onWorld fun w => w.newMailbox capacity
  let feed ← spawnWith (← access) [.feed { scope, mailbox, retry } {}]
  modify fun s => { s with subscriptions := s.subscriptions.give c.name { feed, mailbox } }

/-- The next update: `none` if it does not come in time, `some none` if none will. -/
def receive : Act (Option (Option Observation)) := do
  let s ← subscription
  let wait := (← read).wait
  onWorld fun w => w.take s.mailbox wait

/-! Lease monitors. -/

def monitor : Act Background := do existing "id" ((← get).monitors.named? (← read).name)

def keepLease (a : LeaseAllocator) (retry : Nat) (claim : SubnetClaim) : Act Unit := do
  let c ← read
  ((← get).monitors.named? c.name).forM signal
  let b ← spawnWith (← access) [.lease { allocator := a, retry } { claim }]
  modify fun s => { s with monitors := s.monitors.give c.name b }

/-- Whether a monitor still runs; it halts the step with the failure that it ended with. -/
def monitored : Act Bool := do
  match ← (← monitor).processes.head?.elim (pure none) outcomeOf with
  | none => return true
  | some (.lease (.error e)) => throw (.failure e)
  | some _ => return false

def orphan : Act Bool := do
  let m ← monitor
  signal m
  discard (ended m)
  monitored

/-! Loops. -/

def startLoop (a : Access) (tasks : List Task) : Act Unit := do
  let c ← read
  ((← get).loops.named? c.name).forM signal
  let b ← spawnWith a tasks
  modify fun s => { s with loops := s.loops.give c.name b }

def stopLoop : Act Bool := do
  let b ← existing "id" ((← get).loops.named? (← read).name)
  signal b
  ended b

/-! Views of the peers. -/

def watcher : Act Watcher := do existing "id" ((← get).watchers.named? (← read).name)

def setWatcher (x : Watcher) : Act Unit := do
  let c ← read
  modify fun s => { s with watchers := s.watchers.give c.name x }

def newWatcher : Act Unit := do
  let sink ← onWorld fun w => w.newSink
  setWatcher { view := { layout := (← get).layout, identity := (← read).node }, sink }

def refuse (missing failing : List String) : Act Unit := do
  let x ← watcher
  change fun w => { w with sinks := w.sinks.modify x.sink fun s => { s with missing, failing } }

/-- What the data plane was told since this was last asked. -/
def takeLog : Act (List (PeerChange × Option Refusal)) := do
  let x ← watcher
  let s ← existing "sink" ((← get).world.sinks[x.sink]?)
  change fun w => { w with sinks := w.sinks.set x.sink { s with log := [] } }
  return s.log

def updateView (f : PeerView → Program PeerView) : Act Unit := do
  let x ← watcher
  setWatcher { x with view := ← complete { ← access with sink := some x.sink } (f x.view) }

def pollPeers : Act (Option Observation) := do
  let x ← watcher
  match ← waitFor (← access) (watchFrom (.under x.view.layout.endpointStart) x.cursor) with
  | none => return none
  | some o =>
    setWatcher { x with cursor := some o.cursor }
    updateView (·.handle o.update)
    return some o

def follow (capacity retry : Nat) : Act Unit := do
  let x ← watcher
  let mailbox ← onWorld fun w => w.newMailbox capacity
  startLoop { ← access with sink := some x.sink }
    [.feed { scope := .under x.view.layout.endpointStart, mailbox, retry } {},
      .follow { mailbox } { view := x.view }]

end NetPool.Sim.Session
