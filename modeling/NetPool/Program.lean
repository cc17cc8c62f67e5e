import NetPool.Clock
import NetPool.Endpoint.Basic

/-! Operations as programs of single requests. A program says which request comes next and how it
goes on with each answer; who answers, and what happens between two requests, is left open. So one
text serves a run, a simulation of many nodes, and statements about every interleaving. -/

namespace NetPool

/-- One request to the store. -/
inductive StoreRequest
  | range (start : String)
  | get (key : String)
  | create (key : String) (value : Bytes)
  | put (key : String) (value : Bytes)
  | delete (key : String)
  | compareAndDelete (key : String) (modified : Nat)
  | watch (scope : Scope) (after : Nat)
  | lock (name : String)
  | unlock (grant : Grant)

@[reducible] def StoreRequest.Result : StoreRequest → Type
  | .range _ => Snapshot
  | .get _ => Option KeyValue
  | .create _ _ => Creation
  | .put _ _ => Nat
  | .delete _ => Bool
  | .compareAndDelete _ _ => Bool
  | .watch _ _ => Batch
  | .lock _ => Grant
  | .unlock _ => Unit

/-- One operation on the ranges that a node keeps on file for a pool. -/
inductive CacheRequest
  | load (pool : String)
  | append (pool : String) (range : AddressRange)
  | delete (pool : String) (range : AddressRange)
  | pools

@[reducible] def CacheRequest.Result : CacheRequest → Type
  | .load _ => List AddressRange
  | .append _ _ => Unit
  | .delete _ _ => Option AddressRange
  | .pools => List String

/-- Work that goes on beside the program that starts it. -/
inductive Chore
  /-- Keeps a lease of `ttl` milliseconds alive, waiting `retry` milliseconds after a trouble. Losing
  the lease is fatal. -/
  | keepLease (layout : KeyLayout) (ttl retry : Nat) (claim : SubnetClaim)
  /-- Feeds the updates of a scope into a mailbox. -/
  | feed (scope : Scope) (mailbox retry : Nat)
  /-- Takes the updates of the endpoints out of a mailbox. -/
  | follow (layout : KeyLayout) (identity : String) (mailbox : Nat)
  /-- Reconciles pools from time to time, every `interval` milliseconds more or less. -/
  | reconcile (layout : KeyLayout) (identity : String) (pools : List String) (interval : Nat)
      (jitter : Float)

inductive ChoreRequest
  /-- A mailbox for so many updates. -/
  | mailbox (capacity : Nat)
  | start (chore : Chore)
  | signal
  /-- Waits for a chore to end, `limit` milliseconds at most. -/
  | join (chore limit : Nat)

@[reducible] def ChoreRequest.Result : ChoreRequest → Type
  | .mailbox _ => Nat
  | .start _ => Nat
  | .signal => Unit
  | .join _ _ => Unit

inductive Request
  | store (r : StoreRequest)
  | cache (r : CacheRequest)
  | chore (r : ChoreRequest)
  | now
  /-- Milliseconds since some start, never set back. -/
  | instant
  | sleep (ms : Nat)
  /-- Any number up to `bound`. -/
  | pick (bound : Nat)
  /-- Whether a workload still exists. -/
  | isLive (workload : String)
  /-- Hands a change to the data plane. -/
  | apply (change : PeerChange)

@[reducible] def Request.Answer : Request → Type
  | .store r => Except StoreError r.Result
  | .cache r => Except Failure r.Result
  | .chore r => r.Result
  | .now => UInt64
  | .instant => Nat
  | .sleep _ => Unit
  | .pick bound => Fin (bound + 1)
  | .isLive _ => Bool
  | .apply _ => Except Refusal Unit

inductive Program (α : Type)
  | pure (a : α)
  | ask (r : Request) (next : r.Answer → Program α)

namespace Program

def bind (p : Program α) (f : α → Program β) : Program β :=
  match p with
  | .pure a => f a
  | .ask r next => .ask r fun x => (next x).bind f

instance : Monad Program where
  pure := .pure
  bind := bind

theorem bind_pure (p : Program α) : p.bind .pure = p := by
  induction p with
  | pure a => rfl
  | ask r next ih => simp only [bind, ih]

theorem bind_assoc (p : Program α) (f : α → Program β) (g : β → Program γ) :
    (p.bind f).bind g = p.bind fun a => (f a).bind g := by
  induction p with
  | pure a => rfl
  | ask r next ih => simp only [bind, ih]

def request (r : Request) : Program r.Answer := .ask r .pure

def now : Program UInt64 := request .now

def instant : Program Nat := request .instant

def sleep (ms : Nat) : Program Unit := request (.sleep ms)

/-- The instant at which a sleep that begins now would end. -/
def afterSleep (ms : Nat) : Program Nat := do
  return (← instant) + Clock.sleepSpan ms

def pick (bound : Nat) : Program (Fin (bound + 1)) := request (.pick bound)

def isLive (workload : String) : Program Bool := request (.isLive workload)

def apply (change : PeerChange) : Program (Except Refusal Unit) := request (.apply change)

def store (r : StoreRequest) : Program (Except StoreError r.Result) := request (.store r)

def cache (r : CacheRequest) : Program (Except Failure r.Result) := request (.cache r)

def chore (r : ChoreRequest) : Program r.Result := request (.chore r)

end Program

abbrev Operation := ExceptT Failure Program

namespace Operation

def ofProgram (p : Program (Except Failure α)) : Operation α := p

/-- How it went, for a program that goes on either way. -/
def outcome (o : Operation α) : Program (Except Failure α) := o

def store (r : StoreRequest) : Operation r.Result :=
  ofProgram do return (← Program.store r).mapError .store

def cache (r : CacheRequest) : Operation r.Result := ofProgram (Program.cache r)

def invalid (m : Misuse) : Operation α := throw (.invalid m)

/-- Runs under a named lock, which is let go however it ends. -/
def underLock (name : String) (o : Operation α) : Operation α := do
  let grant ← store (.lock name)
  let result ← liftM o.outcome
  discard (liftM (Program.store (.unlock grant)) : Operation (Except StoreError Unit))
  result

end Operation

end NetPool
