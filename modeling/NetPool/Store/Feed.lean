import NetPool.Activity

/-! Feeding the updates of a scope into a mailbox, until asked to stop or until nobody takes them. A
trouble of the store is waited out, and the feed goes on from the same cursor. -/

namespace NetPool

structure ScopeFeed where
  scope : Scope
  mailbox : Nat
  /-- Milliseconds to wait after a trouble. -/
  retry : Nat

namespace ScopeFeed

inductive Phase
  | reading
  | sending (o : Observation)
  | pausing (instant : Nat)
  | stopped

structure State where
  cursor : Option Nat := none
  phase : Phase := .reading

def read (f : ScopeFeed) (s : State) : Program State := do
  match ← watchFrom f.scope s.cursor with
  | .ok o => return { cursor := some o.cursor, phase := .sending o }
  | .error _ => return { s with phase := .pausing (← Program.afterSleep f.retry) }

def activity (f : ScopeFeed) (s : State) : Activity State Unit :=
  let stopped := { s with phase := .stopped }
  let reading := { s with phase := .reading }
  match s.phase with
  | .reading => .wait stopped none (.program (f.read s))
  | .sending o => .wait stopped none
      (.send f.mailbox o fun taken => if taken then reading else stopped)
  | .pausing instant => .wait stopped (some (instant, reading)) .nothing
  | .stopped => .finish ()

end ScopeFeed

end NetPool
