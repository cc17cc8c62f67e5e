import NetPool.Sim.Serve

/-! Running a world. Processes take turns in the order in which they became ready, each until it has to
wait. Whoever drives the world comes first whenever time has moved on, and looks again once nobody is
ready; only then does time move on to the next instant that somebody waits for. Those who wait for one
instant become ready in the order in which they began to wait. -/

namespace NetPool.Sim.World

/-- More turns than any run of interest takes. -/
def turns : Nat := 1000000

/-- Moves that a process makes in one turn, after which it rests. -/
def movesPerTurn : Nat := 1000

/-- What the end of a process means for others. -/
def afterEnd (w : World) (id : Nat) (a : Access) (t : Task) (o : Outcome) : World :=
  let w := match t, o with
    | .lease _ _, .lease (.error e) => w.report a e
    | .feed f _, _ => w.closeMailbox f.mailbox
    | .follow f _, _ => w.desertMailbox f.mailbox
    | _, _ => w
  w.wakeJoiners id

/-- Puts an update into a mailbox: `none` while it is full, `false` if nobody takes it. -/
def send (w : World) (i : Nat) (o : Observation) : Option Bool × World :=
  match w.mailboxes[i]? with
  | none => (some false, w)
  | some m =>
    if !m.taken then (some false, w)
    else if m.items.length < m.capacity then
      (some true, (w.updateMailbox i fun m => { m with items := m.items ++ [o] }).wakeReceiver i)
    else (none, w)

/-- Takes the next update out of a mailbox: `none` while there is none, `some none` if none will
come. -/
def receive (w : World) (i : Nat) : Option (Option Observation) × World :=
  match w.mailboxes[i]? with
  | none => (some none, w)
  | some m =>
    match m.items with
    | o :: rest =>
      (some (some o), (w.updateMailbox i fun m => { m with items := rest }).wakeSender i)
    | [] => (if m.fed then none else some none, w)

def takeFailure (w : World) (a : Access) : Option Failure × World :=
  match a.failures.bind fun i => (w.failures[i]?).map (i, ·) with
  | some (i, e :: rest) => (some e, { w with failures := w.failures.set i rest })
  | _ => (none, w)

/-- What a source has to offer: the state it leads to, or where it stands. -/
def offer (w : World) (a : Access) (source : Source Task) (stage : Stage) :
    Except (Source Task × Stage) Task × World :=
  match source with
  | .nothing => (.error (source, stage), w)
  | .program p =>
    match w.perform a [] p stage with
    | (.result t, _, w) => (.ok t, w)
    | (.pending p stage, _, w) => (.error (.program p, stage), w)
  | .send i o next =>
    match w.send i o with
    | (some taken, w) => (.ok (next taken), w)
    | (none, w) => (.error (source, stage), w)
  | .receive i next =>
    match w.receive i with
    | (some got, w) => (.ok (next got), w)
    | (none, w) => (.error (source, stage), w)
  | .fatal next =>
    match w.takeFailure a with
    | (some e, w) => (.ok (next e), w)
    | (none, w) => (.error (source, stage), w)

/-- One move of a process: `true` if it can move again at once. A signal comes first, then an alarm,
then the source. -/
def move (w : World) (id : Nat) (p : Process) : Bool × Process × World :=
  match p.doing with
  | .ended _ => (false, p, w)
  | .next =>
    match p.task.activity with
    | .finish o => (false, { p with doing := .ended o }, w.afterEnd id p.access p.task o)
    | .work q => (true, { p with doing := .working q .fresh }, w)
    | .wait stopped alarm source =>
      let (ticket, w) := w.ticket
      (true, { p with doing := .waiting stopped alarm source .fresh ticket }, w)
  | .working q stage =>
    match w.perform p.access p.held q stage with
    | (.result t, held, w) => (true, { p with held, task := t, doing := .next }, w)
    | (.pending q stage, held, w) => (false, { p with held, doing := .working q stage }, w)
  | .waiting stopped alarm source stage ticket =>
    if w.signalled.contains p.access.signal then (true, { p with task := stopped, doing := .next }, w)
    else
      let due := alarm.bind fun (t, s) => if t ≤ w.now then some s else none
      match due with
      | some s => (true, { p with task := s, doing := .next }, w)
      | none =>
        match w.offer p.access source stage with
        | (.ok t, w) => (true, { p with task := t, doing := .next }, w)
        | (.error (source, stage), w) =>
          (false, { p with doing := .waiting stopped alarm source stage ticket }, w)

/-- One turn of a process: it moves until it has to wait. Nothing calls it while it moves. -/
def turn (w : World) (id : Nat) : Nat → World
  | 0 => { w with resting := w.resting ++ [id] }
  | fuel + 1 =>
    match w.process? id with
    | none => w
    | some p =>
      match (w.setProcess id { p with doing := .next }).move id p with
      | (true, p, w) => (w.setProcess id p).turn id fuel
      | (false, p, w) => w.setProcess id p

/-- Lets processes take their turns until none is ready. Those who rest are ready after that. -/
def settle (w : World) : Nat → World
  | 0 => w
  | fuel + 1 =>
    match w.ready with
    | [] => enqueue { w with resting := [] } w.resting
    | id :: rest => (({ w with ready := rest } : World).turn id movesPerTurn).settle fuel

def advanceTo (w : World) (t : Nat) : World :=
  wakeBy { w with now := t } fun p =>
    p.alarm?.bind fun (instant, ticket) => if instant ≤ t then some ticket else none

def nextInstant? (w : World) : Option Nat := (w.processes.filterMap fun p => p.alarm?.map (·.1)).min?

/-- Lets the world go on until what is looked for is there, or until a limit. `look` tells whether it
is there, and `instant?` when to look again at the latest. -/
def drive (look : World → σ → Except σ α × World) (instant? : σ → Option Nat) (limit : Nat)
    (w : World) (s : σ) : Nat → Except σ α × World
  | 0 => (.error s, w)
  | fuel + 1 =>
    match look w s with
    | (.ok a, w) => (.ok a, w)
    | (.error s, w) =>
      if limit ≤ w.now then (.error s, w)
      else if w.ready = [] then
        let t := (w.nextInstant?.toList ++ (instant? s).toList).foldl min limit
        drive look instant? limit (w.advanceTo t) s fuel
      else drive look instant? limit (w.settle turns) s fuel

/-- Lets go of locks in the background, without a deadline. -/
def releaseAll (w : World) (a : Access) (held : List Grant) : World :=
  held.foldl (fun w grant => (w.spawn { a with deadline := none } (.unlock grant)).2) w

/-- A program under way in front of all processes. -/
structure Front (α : Type) where
  program : Program α
  stage : Stage := .fresh
  held : List Grant := []

/-- Runs a program that holds locks, for `span` milliseconds at most; `none` if it was given up. -/
def runHolding (w : World) (a : Access) (span : Nat) (held : List Grant) (p : Program α) :
    Option α × World :=
  let look (w : World) (f : Front α) : Except (Front α) α × World :=
    match w.perform a f.held f.program f.stage with
    | (.result x, _, w) => (.ok x, w)
    | (.pending program stage, held, w) => (.error { program, stage, held }, w)
  match drive look (fun f => f.stage.alarm?.map (·.1)) (w.now + span) w { program := p, held }
    turns with
  | (.ok x, w) => (some x, w)
  | (.error f, w) => (none, w.releaseAll a f.held)

def run (w : World) (a : Access) (span : Nat) (p : Program α) : Option α × World :=
  w.runHolding a span [] p

/-- Waits until something holds, for `span` milliseconds at most; whether it does. -/
def waitUntil (w : World) (span : Nat) (holds : World → Bool) : Bool × World :=
  let look (w : World) (_ : Unit) : Except Unit Unit × World :=
    (if holds w then .ok () else .error (), w)
  match drive look (fun _ => none) (w.now + span) w () turns with
  | (.ok (), w) => (true, w)
  | (.error (), w) => (false, w)

def hasEnded (w : World) (id : Nat) : Bool := ((w.process? id).bind (·.outcome?)).isSome

/-- Waits until processes have ended, for `span` milliseconds at most; whether they have. -/
def waitFor (w : World) (ids : List Nat) (span : Nat) : Bool × World :=
  w.waitUntil span fun w => ids.all w.hasEnded

/-- What allocations came to, once they all have ended; `none` if they did not in time. -/
def allocations (w : World) (ids : List Nat) (span : Nat) :
    Option (List (Except Failure RangeClaim)) × World :=
  match w.waitFor ids span with
  | (false, w) => (none, w)
  | (true, w) => (some (ids.filterMap fun id =>
      match (w.process? id).bind (·.outcome?) with
      | some (.allocated r) => some r
      | _ => none), w)

/-- Takes the next update out of a mailbox, for `span` milliseconds at most. -/
def take (w : World) (mailbox span : Nat) : Option (Option Observation) × World :=
  let look (w : World) (_ : Unit) : Except Unit (Option Observation) × World :=
    match w.receive mailbox with
    | (some got, w) => (.ok got, w)
    | (none, w) => (.error (), w)
  match drive look (fun _ => none) (w.now + span) w () turns with
  | (.ok got, w) => (some got, w)
  | (.error (), w) => (none, w)

/-- Puts a process in front of all others until it ends, for `span` milliseconds at most. -/
def runAhead (w : World) (id span : Nat) : World :=
  let look (w : World) (_ : Unit) : Except Unit Unit × World :=
    let w := w.turn id movesPerTurn
    (if w.hasEnded id then .ok () else .error (), w)
  let w := { w with foreground := some id, ready := w.ready.erase id }
  { (drive look (fun _ => none) (w.now + span) w () turns).2 with foreground := none }

/-- Gives a process up where it stands, and lets go of its locks. -/
def abandon (w : World) (id : Nat) : World :=
  match w.process? id with
  | none => w
  | some p =>
    match p.outcome? with
    | some _ => w
    | none =>
      (w.setProcess id { p with held := [], doing := .ended .ended }).releaseAll p.access p.held

end NetPool.Sim.World
