import NetPool.Activity
import NetPool.Allocation.Lease

/-! Keeping one lease alive. The monitor renews the lease when half of it is over, and watches its key
all the time: once the key is gone or another node owns it, the lease is lost. -/

namespace NetPool

structure LeaseMonitor where
  allocator : LeaseAllocator
  /-- Milliseconds to wait after a trouble. -/
  retry : Nat

namespace LeaseMonitor

inductive Phase
  | starting
  | watching
  | renewing
  | pausing (instant : Nat)
  | stopped
  | failed (e : Failure)

structure State where
  claim : SubnetClaim
  cursor : Option Nat := none
  renewAt : Nat := 0
  phase : Phase := .starting

def scope (m : LeaseMonitor) (c : SubnetClaim) : Scope :=
  .key (m.allocator.layout.subnetKey c.pool c.subnet)

/-- Half of what is left of the lease, and no more than half of its full length. -/
def halfLife (m : LeaseMonitor) (c : SubnetClaim) (now : UInt64) : Nat :=
  (min (Clock.remaining now c.expiration).toNat m.allocator.ttl + 1) / 2

/-- Whether an update shows the lease in the hands of its owner all along. -/
def confirms (owner : String) : Update → Bool
  | .snapshot entries => heldBy owner entries.head?
  | .events events => events.all fun e => e.change == .put && heldBy owner (some e.entry)

def observe (o : Observation) (s : State) : State :=
  if confirms s.claim.owner o.update then { s with cursor := some o.cursor, phase := .watching }
  else { s with phase := .failed s.claim.revoked }

/-- Watches again, and renews in half a lease. -/
def schedule (m : LeaseMonitor) (s : State) : Program State := do
  let now ← Program.now
  return { s with renewAt := (← Program.instant) + m.halfLife s.claim now, phase := .watching }

def watch (m : LeaseMonitor) (s : State) : Program State := do
  match ← watchFrom (m.scope s.claim) s.cursor with
  | .ok o => return observe o s
  | .error _ => return { s with phase := .pausing (← Program.afterSleep m.retry) }

def renew (m : LeaseMonitor) (s : State) : Program State := do
  match ← (m.allocator.renew s.claim).outcome with
  | .ok claim => m.schedule { s with claim }
  | .error e =>
    if e.fatal then return { s with phase := .failed e }
    else return { s with renewAt := (← Program.instant) + m.retry, phase := .watching }

def activity (m : LeaseMonitor) (s : State) : Activity State (Except Failure Unit) :=
  let stopped := { s with phase := .stopped }
  match s.phase with
  | .starting => .work (m.schedule s)
  | .watching =>
    .wait stopped (some (s.renewAt, { s with phase := .renewing })) (.program (m.watch s))
  | .renewing => .work (m.renew s)
  | .pausing instant => .wait stopped (some (instant, { s with phase := .watching })) .nothing
  | .stopped => .finish (.ok ())
  | .failed e => .finish (.error e)

end LeaseMonitor

end NetPool
