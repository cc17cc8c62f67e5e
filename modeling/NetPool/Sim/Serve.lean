import NetPool.Sim.World

/-! Answers to requests: the delay, the hooks and the deadline on the way to a store, and all that is
no store. -/

namespace NetPool.Sim

inductive Reply (α : Type)
  | answer (a : α)
  | wait (stage : Stage)

namespace World

/-- One request straight to a store. -/
def direct (w : World) (i : Nat) (r : StoreRequest) :
    Option (Except StoreError r.Result) × World :=
  match w.store? i with
  | none => (some (.error (.internal "no store")), w)
  | some s =>
    let (x, s) := s.serve r
    (x, w.setStore i s)

/-- Calls all who wait, also if nothing changes. -/
def setAvailable (w : World) (i : Nat) (value : Bool) : World :=
  match w.store? i with
  | none => w
  | some s => (w.setStore i { s with available := value }).stir i

/-- What the hooks make of a call: a failure, or whether a creation is to find its key taken. -/
def act (w : World) (i : Nat) (rejected : Bool) : List HookAction → World × Except StoreError Bool
  | [] => (w, .ok rejected)
  | a :: rest =>
    match a with
    | .put key value => (w.direct i (.put key value)).2.act i rejected rest
    | .create key value => (w.direct i (.create key value)).2.act i rejected rest
    | .delete key => (w.direct i (.delete key)).2.act i rejected rest
    | .available value => (w.setAvailable i value).act i rejected rest
    | .advance ms => (w.moveClock ms).act i rejected rest
    | .reject => w.act i true rest
    | .fail e => (w, .error e)

/-- Counts a call for the hooks of its kind, and takes out the actions that are due. -/
def countCall (w : World) (kind : CallKind) : List HookAction × World :=
  let counted := w.hooks.map fun h =>
    if h.kind = kind then { h with countdown := h.countdown - 1 } else h
  let (due, hooks) := counted.partition fun h => h.kind = kind && h.countdown = 0
  (due.flatMap (·.actions), { w with hooks })

/-- What a call meets before the store sees it: an answer of its own, or none. -/
def intercept (w : World) (a : Access) : (r : StoreRequest) → Option (Except StoreError r.Result) × World
  | .create key value =>
    if !a.faulty then (none, w)
    else if w.steer.any (· ≠ key) then (some (.ok .alreadyExists), w)
    else
      let (actions, w) := w.countCall (.ofRequest (.create key value))
      match w.act a.store false actions with
      | (w, .error e) => (some (.error e), w)
      | (w, .ok true) => (some (.ok .alreadyExists), w)
      | (w, .ok false) => (none, w)
  | r =>
    if !a.faulty then (none, w)
    else
      let (actions, w) := w.countCall (.ofRequest r)
      match w.act a.store false actions with
      | (w, .error e) => (some (.error e), w)
      | (w, .ok _) => (none, w)

/-- A request that reached the store. -/
def attempt (w : World) (a : Access) (r : StoreRequest) :
    Reply (Except StoreError r.Result) × World :=
  match w.direct a.store r with
  | (some x, w) => (.answer x, w)
  | (none, w) => let (ticket, w) := w.ticket; (.wait (.waiting ticket), w)

def enter (w : World) (a : Access) (r : StoreRequest) :
    Reply (Except StoreError r.Result) × World :=
  match w.intercept a r with
  | (some x, w) => (.answer x, w)
  | (none, w) => w.attempt a r

/-- A request under way. Where arrival and deadline fall together, it arrives. -/
def arrive (w : World) (a : Access) (r : StoreRequest) (arrival : Nat) (deadline : Option Nat)
    (ticket : Nat) : Reply (Except StoreError r.Result) × World :=
  if arrival ≤ w.now then w.enter a r
  else if deadline.any (· ≤ w.now) then
    (.answer (.error (.timeout (operationName r) (a.deadline.getD 0))), w)
  else (.wait (.delayed arrival deadline ticket), w)

/-- The delay of a request is a sleep. One that waits for the store looks again once it is called. -/
def serveStore (w : World) (a : Access) (r : StoreRequest) :
    Stage → Reply (Except StoreError r.Result) × World
  | .delayed arrival deadline ticket => w.arrive a r arrival deadline ticket
  | .waiting ticket =>
    if w.isCalled a.store ticket then w.attempt a r else (.wait (.waiting ticket), w)
  | _ =>
    if a.faulty ∧ 0 < w.delay ∧ !patient r then
      let (ticket, w) := w.ticket
      w.arrive a r (w.now + Clock.sleepSpan w.delay) (a.deadline.map (w.now + ·)) ticket
    else w.enter a r

def serveInstant (w : World) (span : Nat) : Stage → Option Stage × World
  | .timed instant ticket =>
    (if instant ≤ w.now then none else some (.timed instant ticket), w)
  | _ =>
    if span = 0 then (none, w)
    else let (ticket, w) := w.ticket; (some (.timed (w.now + span) ticket), w)

def serveChore (w : World) (a : Access) :
    (r : ChoreRequest) → Stage → Reply r.Result × World
  | .mailbox capacity, _ => let (i, w) := w.newMailbox capacity; (.answer i, w)
  | .start chore, _ => let (id, w) := w.spawn a (.ofChore chore); (.answer id, w)
  | .signal, _ => (.answer (), w.signal a.signal)
  | .join chore limit, stage =>
    if ((w.process? chore).bind (·.outcome?)).isSome then (.answer (), w)
    else match w.serveInstant limit stage with
      | (none, w) => (.answer (), w)
      | (some stage, w) => (.wait stage, w)

def applyChange (w : World) (a : Access) (c : PeerChange) : Except Refusal Unit × World :=
  match a.sink.bind fun i => (w.sinks[i]?).map (i, ·) with
  | none => (.ok (), w)
  | some (i, s) =>
    let refusal := s.refusal? c.endpoint.device
    (match refusal with | none => .ok () | some r => .error r,
      { w with sinks := w.sinks.set i { s with log := s.log ++ [(c, refusal)] } })

def serve (w : World) (a : Access) : (r : Request) → Stage → Reply r.Answer × World
  | .store r, stage => w.serveStore a r stage
  | .cache r, _ => let (x, files) := a.cache.serve w.files r; (.answer x, { w with files })
  | .chore r, stage => w.serveChore a r stage
  | .now, _ => (.answer (w.clock a), w)
  | .instant, _ => (.answer w.now, w)
  | .sleep ms, stage =>
    match w.serveInstant (Clock.sleepSpan ms) stage with
    | (none, w) => (.answer (), w)
    | (some stage, w) => (.wait stage, w)
  | .pick bound, _ => (.answer (Fin.ofNat (bound + 1) w.dice), { w with dice := w.dice + 1 })
  | .isLive workload, _ => (.answer (a.live.contains workload), w)
  | .apply c, _ => let (x, w) := w.applyChange a c; (.answer x, w)

/-- The locks held once a request has been sent off. -/
def afterSending (held : List Grant) : Request → List Grant
  | .store (.unlock grant) => held.erase grant
  | _ => held

/-- The locks held once a request has been answered. -/
def afterAnswer (held : List Grant) : (r : Request) → r.Answer → List Grant
  | .store (.lock _), .ok grant => held ++ [grant]
  | _, _ => held

end World

inductive Progress (α : Type)
  | result (a : α)
  | pending (p : Program α) (stage : Stage)

/-- Runs a program until it ends or has to wait. -/
def World.perform (w : World) (a : Access) (held : List Grant) :
    Program α → Stage → Progress α × List Grant × World
  | .pure x, _ => (.result x, held, w)
  | .ask r next, stage =>
    let held := World.afterSending held r
    match w.serve a r stage with
    | (.wait stage, w) => (.pending (.ask r next) stage, held, w)
    | (.answer x, w) => w.perform a (World.afterAnswer held r x) (next x) .fresh

end NetPool.Sim
