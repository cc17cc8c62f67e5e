import NetPool.Cache.Store
import NetPool.Endpoint.Follower
import NetPool.Allocation.Monitor
import NetPool.Node.Lifecycle
import NetPool.Reconcile.Loop
import NetPool.Store.Feed
import NetPool.Store.Serve

/-! A world of processes around stores and files, in virtual time. Time stands still while anything
can go on. Between a process and a store there may be a delay and a set of hooks that act at chosen
calls. -/

namespace NetPool.Sim

inductive CallKind
  | range
  | get
  | create
  | put
  | delete
  | compareAndDelete
  | watch
  | lock
  | unlock
deriving DecidableEq

def CallKind.ofRequest : StoreRequest → CallKind
  | .range _ => .range
  | .get _ => .get
  | .create _ _ => .create
  | .put _ _ => .put
  | .delete _ => .delete
  | .compareAndDelete _ _ => .compareAndDelete
  | .watch _ _ => .watch
  | .lock _ => .lock
  | .unlock _ => .unlock

/-- What a request that ran into its deadline was about. -/
def operationName : StoreRequest → String
  | .range _ => "range"
  | .get _ => "get"
  | .create _ _ => "create"
  | .put _ _ => "put"
  | .delete _ => "delete"
  | .compareAndDelete _ _ => "compare_and_delete"
  | .watch _ _ => "watch"
  | .lock _ => "lock"
  | .unlock grant => "unlock " ++ grant.name

/-- A watch and a lock may take any time. -/
def patient : StoreRequest → Bool
  | .watch _ _ | .lock _ => true
  | _ => false

inductive HookAction
  | put (key : String) (value : Bytes)
  | create (key : String) (value : Bytes)
  | delete (key : String)
  | available (value : Bool)
  | advance (ms : Nat)
  /-- Makes a creation find its key taken. -/
  | reject
  | fail (e : StoreError)

/-- Acts once, at the call of its kind that counts it down to nothing. -/
structure Hook where
  kind : CallKind
  countdown : Nat
  actions : List HookAction

structure Sink where
  missing : List String := []
  failing : List String := []
  log : List (PeerChange × Option Refusal) := []

def Sink.refusal? (s : Sink) (device : String) : Option Refusal :=
  if s.missing.contains device then some (.deviceNotReady device)
  else if s.failing.contains device then some (.failed ("no " ++ device))
  else none

structure Mailbox where
  capacity : Nat
  items : List Observation := []
  /-- Updates can still come. -/
  fed : Bool := true
  /-- Somebody still takes them. -/
  taken : Bool := true

/-- Whom a process speaks to, and under what conditions. -/
structure Access where
  store : Nat := 0
  /-- Milliseconds before a request is given up. -/
  deadline : Option Nat := none
  /-- Whether delays and hooks apply. -/
  faulty : Bool := true
  cache : RangeCache
  /-- A wall clock that stands still; otherwise it is the world's. -/
  clock : Option UInt64 := none
  live : List String := []
  sink : Option Nat := none
  /-- The signal that asks the process to stop. -/
  signal : Nat := 0
  /-- Where a chore reports that it cannot go on. -/
  failures : Option Nat := none

/-- What a process does, as the state of its machine. -/
inductive Task
  | unlock (grant : Grant)
  | allocate (p : Program (Except Failure RangeClaim))
  | allocated (r : Except Failure RangeClaim)
  | lease (m : LeaseMonitor) (s : LeaseMonitor.State)
  | feed (f : ScopeFeed) (s : ScopeFeed.State)
  | follow (f : PeerFollower) (s : PeerFollower.State)
  | reconcile (l : ReconcileLoop) (p : ReconcileLoop.Phase)
  | node (c : Node.Course)
  | ended

inductive Outcome
  | ended
  | allocated (r : Except Failure RangeClaim)
  | lease (r : Except Failure Unit)
  | node (n : Node) (v : Verdict)

def Task.activity : Task → Activity Task Outcome
  | .unlock grant => .work do
    discard (Program.store (.unlock grant))
    return .ended
  | .allocate p => .work (.allocated <$> p)
  | .allocated r => .finish (.allocated r)
  | .lease m s => (m.activity s).map (.lease m) .lease
  | .feed f s => (f.activity s).map (.feed f) fun _ => .ended
  | .follow f s => (f.activity s).map (.follow f) fun _ => .ended
  | .reconcile l p => (l.activity p).map (.reconcile l) fun _ => .ended
  | .node c => c.activity.map .node fun (n, v) => .node n v
  | .ended => .finish .ended

def Task.ofChore : Chore → Task
  | .keepLease layout ttl retry claim =>
    .lease { allocator := { layout, ttl }, retry } { claim }
  | .feed scope mailbox retry => .feed { scope, mailbox, retry } {}
  | .follow layout identity mailbox => .follow { mailbox } { view := { layout, identity } }
  | .reconcile layout identity configured interval jitter =>
    .reconcile { reconciler := { layout, identity }, configured, interval, jitter } .planning

/-- How far the request at the head of a program has come. Who begins to wait draws a ticket, and the
lowest ticket comes first. -/
inductive Stage
  | fresh
  /-- On its way to the store; given up at the deadline. -/
  | delayed (arrival : Nat) (deadline : Option Nat) (ticket : Nat)
  /-- Until the store calls. -/
  | waiting (ticket : Nat)
  | timed (instant ticket : Nat)

/-- An instant that somebody waits for, and the ticket drawn for it. -/
abbrev Alarm := Nat × Nat

def Stage.alarm? : Stage → Option Alarm
  | .fresh | .waiting _ => none
  | .delayed arrival deadline ticket => some (min arrival (deadline.getD arrival), ticket)
  | .timed instant ticket => some (instant, ticket)

inductive Doing
  | next
  | working (p : Program Task) (stage : Stage)
  | waiting (stopped : Task) (alarm : Option (Nat × Task)) (source : Source Task) (stage : Stage)
      (ticket : Nat)
  | ended (o : Outcome)

structure Process where
  access : Access
  /-- Locks that would be let go if the process were given up. -/
  held : List Grant := []
  task : Task
  doing : Doing := .next

/-- When a process goes on by itself. -/
def Process.alarm? (p : Process) : Option Alarm :=
  match p.doing with
  | .working _ stage => stage.alarm?
  | .waiting _ (some (t, _)) _ stage ticket =>
    match stage.alarm? with
    | some (t', ticket') => if t' < t then some (t', ticket') else some (t, ticket)
    | none => some (t, ticket)
  | .waiting _ none _ stage _ => stage.alarm?
  | _ => none

/-- The ticket of a process that waits for its store. -/
def Process.ticket? (p : Process) : Option Nat :=
  match p.doing with
  | .working _ (.waiting ticket) => some ticket
  | .waiting _ _ (.program _) (.waiting ticket) _ => some ticket
  | _ => none

/-- What a waiting process waits for, apart from a signal and an alarm. -/
def Process.source? (p : Process) : Option (Source Task) :=
  match p.doing with
  | .waiting _ _ source _ _ => some source
  | _ => none

def Process.outcome? (p : Process) : Option Outcome :=
  match p.doing with
  | .ended o => some o
  | _ => none

/-- A store, and the ticket below which all who wait for it have been called. -/
structure Server where
  store : Store
  called : Nat := 0

structure World where
  /-- Milliseconds since the start. -/
  now : Nat := 0
  /-- What the wall clock showed at the start, moved by hand since. -/
  epoch : UInt64 := 1000000
  servers : List Server
  files : FileTree
  /-- By number, from one. -/
  processes : List Process := []
  /-- The process that goes before all others, and takes no turns among them. -/
  foreground : Option Nat := none
  /-- Processes that may be able to go on, in the order of their turn. -/
  ready : List Nat := []
  /-- Processes that used up a turn, and go on when nobody else is ready. -/
  resting : List Nat := []
  tickets : Nat := 0
  /-- Milliseconds that a request takes to the store. -/
  delay : Nat := 0
  hooks : List Hook := []
  /-- The only key whose creation is let through. -/
  steer : Option String := none
  mailboxes : List Mailbox := []
  sinks : List Sink := []
  failures : List (List Failure) := []
  /-- Signals are numbered from one; these have been given. -/
  signalled : List Nat := []
  signals : Nat := 0
  /-- Random choices go round. -/
  dice : Nat := 0

namespace World

/-- The wall clock, which stops at the last instant there is. -/
def clock (w : World) (a : Access) : UInt64 :=
  a.clock.getD (Clock.addSaturating w.epoch (UInt64.ofNat (min w.now (UInt64.size - 1))))

def moveClock (w : World) (ms : Nat) : World := { w with epoch := Clock.advance w.epoch ms }

def server? (w : World) (i : Nat) : Option Server := w.servers[i]?

def store? (w : World) (i : Nat) : Option Store := (w.server? i).map (·.store)

def process? (w : World) (id : Nat) : Option Process := w.processes[id - 1]?

def setProcess (w : World) (id : Nat) (p : Process) : World :=
  { w with processes := w.processes.set (id - 1) p }

def enqueue (w : World) (ids : List Nat) : World :=
  { w with ready := w.ready ++ ids.filter fun id => w.foreground ≠ some id && !w.ready.contains id }

def spawn (w : World) (access : Access) (t : Task) : Nat × World :=
  let id := w.processes.length + 1
  let p : Process := { access, task := t }
  (id, enqueue { w with processes := w.processes ++ [p] } [id])

/-- Calls the processes of a kind, by number. -/
def wake (w : World) (select : Process → Bool) : World :=
  w.enqueue ((w.processes.zipIdx 1).filterMap fun (p, id) => if select p then some id else none)

/-- Calls the processes that have a key, from the lowest key on. -/
def wakeBy (w : World) (key? : Process → Option Nat) : World :=
  let found := (w.processes.zipIdx 1).filterMap fun (p, id) => (key? p).map (·, id)
  w.enqueue ((found.mergeSort fun a b => a.1 ≤ b.1).map (·.2))

def ticket (w : World) : Nat × World := (w.tickets, { w with tickets := w.tickets + 1 })

/-- Whether the holder of a ticket has been called by a store. -/
def isCalled (w : World) (i ticket : Nat) : Bool := (w.server? i).any (ticket < ·.called)

def stir (w : World) (i : Nat) : World :=
  let w := { w with servers := w.servers.modify i fun s => { s with called := w.tickets } }
  w.wakeBy fun p => if p.access.store = i then p.ticket? else none

/-- Replaces a store, and calls those who have to look at it again. -/
def setStore (w : World) (i : Nat) (s : Store) : World :=
  match w.store? i with
  | none => w
  | some old =>
    let w := { w with servers := w.servers.modify i fun x => { x with store := s } }
    if Store.stirred old s then w.stir i else w

def newSignal (w : World) : Nat × World := (w.signals + 1, { w with signals := w.signals + 1 })

def newFailures (w : World) : Nat × World :=
  (w.failures.length, { w with failures := w.failures ++ [[]] })

def newSink (w : World) : Nat × World := (w.sinks.length, { w with sinks := w.sinks ++ [{}] })

def newMailbox (w : World) (capacity : Nat) : Nat × World :=
  (w.mailboxes.length, { w with mailboxes := w.mailboxes ++ [{ capacity := max capacity 1 }] })

def newStore (w : World) (s : Store) : Nat × World :=
  (w.servers.length, { w with servers := w.servers ++ [{ store := s }] })

def signal (w : World) (n : Nat) : World :=
  wake { w with signalled := n :: w.signalled } fun p => p.source?.isSome && p.access.signal = n

def updateMailbox (w : World) (i : Nat) (f : Mailbox → Mailbox) : World :=
  { w with mailboxes := w.mailboxes.modify i f }

def wakeSender (w : World) (mailbox : Nat) : World :=
  w.wake fun p => match p.source? with
    | some (.send i _ _) => i = mailbox
    | _ => false

def wakeReceiver (w : World) (mailbox : Nat) : World :=
  w.wake fun p => match p.source? with
    | some (.receive i _) => i = mailbox
    | _ => false

/-- No update is put into a mailbox any more. -/
def closeMailbox (w : World) (i : Nat) : World :=
  (w.updateMailbox i fun m => { m with fed := false }).wakeReceiver i

def desertMailbox (w : World) (i : Nat) : World :=
  (w.updateMailbox i fun m => { m with taken := false, items := [] }).wakeSender i

/-- A chore cannot go on. -/
def report (w : World) (a : Access) (e : Failure) : World :=
  match a.failures with
  | none => w
  | some i =>
    wake { w with failures := w.failures.modify i (· ++ [e]) } fun p =>
      match p.source? with
      | some (.fatal _) => p.access.failures = some i
      | _ => false

def wakeJoiners (w : World) (process : Nat) : World :=
  w.wake fun p => match p.doing with
    | .working (.ask (.chore (.join id _)) _) _ => id = process
    | _ => false

end World

end NetPool.Sim
