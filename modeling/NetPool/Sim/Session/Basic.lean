import NetPool.Sim.Script

/-! A session: a world that is driven one step at a time, and what has been given a name in it. A
step runs a program of its own to the end or gives it up; what else is under way goes on beside it. -/

namespace NetPool.Sim

abbrev Named (α : Type) := List (String × α)

namespace Named

def named? (t : Named α) (name : String) : Option α := (t.find? (·.1 = name)).map (·.2)

def forget (t : Named α) (name : String) : Named α := t.filter (·.1 ≠ name)

def give (t : Named α) (name : String) (a : α) : Named α := (name, a) :: t.forget name

end Named

/-- Processes in the background, and the signal that stops them. -/
structure Background where
  processes : List Nat
  signal : Nat

/-- A view of the peers that is fed by hand, and the data plane behind it. -/
structure Watcher where
  view : PeerView
  sink : Nat
  cursor : Option Nat := none

structure Subscription where
  feed : Background
  mailbox : Nat

structure Station where
  node : Node
  access : Access
  /-- The process that it runs in. -/
  process : Option Nat := none
  verdict : Option Verdict := none

structure Session where
  world : World
  layout : KeyLayout
  pools : List Pool
  /-- The deadline of a request, in milliseconds. -/
  timeout : Nat
  /-- How long a lease lasts, in milliseconds. -/
  ttl : Nat
  /-- Retries of every allocator, unless each has its own. -/
  retry : Option Retry
  hostname : Option String
  grants : Named Grant := []
  guards : Named Grant := []
  cursors : Named Nat := []
  watchers : Named Watcher := []
  monitors : Named Background := []
  subscriptions : Named Subscription := []
  loops : Named Background := []
  stations : Named Station := []

/-- Who takes a step, the name that the step is about, and how long it may take: `limit` for its
program, `wait` for what may never come. -/
structure Caller where
  node : String := "me"
  name : String := "a"
  limit : Nat := 600000
  wait : Nat := 10

/-- Why a step has no result. -/
inductive Halt
  | blocked
  | store (e : StoreError)
  | failure (f : Failure)
  | trouble (t : Trouble)
  /-- It is about something that is not there. -/
  | missing (what : String)

abbrev Act := ReaderT Caller (ExceptT Halt (StateM Session))

namespace Session

def ofResult (halt : ε → Halt) (r : Except ε α) : Act α :=
  match r with
  | .ok a => return a
  | .error e => throw (halt e)

def existing (what : String) (o : Option α) : Act α :=
  match o with
  | some a => return a
  | none => throw (.missing what)

def onWorld (f : World → α × World) : Act α :=
  modifyGet fun s => let (a, w) := f s.world; (a, { s with world := w })

def change (f : World → World) : Act Unit := onWorld fun w => ((), f w)

def cache : RangeCache := { dataDir := "cache" }

/-- Through the delays, the hooks and the deadline. -/
def access : Act Access := do return { deadline := some (← get).timeout, cache }

/-- Straight to the store. -/
def direct : Access := { faulty := false, cache }

def complete (a : Access) (p : Program α) : Act α := do
  let limit := (← read).limit
  match ← onWorld fun w => w.run a limit p with
  | some x => return x
  | none => throw .blocked

/-- Runs a program that may wait for ever. -/
def waitFor (a : Access) (p : Program (Except StoreError α)) : Act (Option α) := do
  let wait := (← read).wait
  match ← onWorld fun w => w.run a wait p with
  | none => return none
  | some r => some <$> ofResult .store r

def request (r : StoreRequest) : Act r.Result := do
  ofResult .store (← complete (← access) (Program.store r))

def operateAs (a : Access) (o : Operation α) : Act α := do
  ofResult .failure (← complete a o.outcome)

def operate (o : Operation α) : Act α := do operateAs (← access) o

def pool (name : String) : Act Pool := do
  existing "pool" ((← get).pools.find? (·.name = name))

def clock : Act UInt64 := do return (← get).world.clock direct

/-- Ends a step: everything in the background gets as far as it can. -/
def settle (s : Session) : Session := { s with world := s.world.settle World.turns }

end Session

end NetPool.Sim
