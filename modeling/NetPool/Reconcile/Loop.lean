import NetPool.Activity
import NetPool.Number.Binary
import NetPool.Reconcile.Basic

/-! Reconciling every pool from time to time. The pause between two rounds varies at random, so that
nodes do not all come at once. -/

namespace NetPool

structure ReconcileLoop where
  reconciler : Reconciler
  configured : List String
  /-- Milliseconds between two rounds. -/
  interval : Nat
  /-- The pause varies by this part of the interval. -/
  jitter : Float

namespace ReconcileLoop

inductive Phase
  | planning
  | waiting (instant : Nat)
  | reconciling
  | stopped

/-- A part lies between nothing and the whole. -/
def part (x : Float) : Float := if x < 0.0 then 0.0 else if 1.0 < x then 1.0 else x

/-- Steps between the shortest and the longest pause. -/
def steps : Nat := 100

/-- The part of the jitter, from -1 to 1, that a step stands for: the middle of one of as many equal
parts. -/
def spread (step : Nat) : Float :=
  Float.ofNat (2 * step + 1) / Float.ofNat (steps + 1) - 1.0

/-- The interval in seconds: the whole ones and the rest are added up. -/
def seconds (l : ReconcileLoop) : Float :=
  Float.ofNat (l.interval / 1000) + Float.ofNat (l.interval % 1000 * 1000000) / 1000000000.0

/-- So many times the interval, in nanoseconds. -/
def times (l : ReconcileLoop) (factor : Float) : Nat :=
  match Number.Parts.ofFloat (factor * l.seconds) with
  | .finite b => b.count 9
  | _ => 0

/-- A pause of the interval, less or more a part of the jitter, in nanoseconds. -/
def pauseOf (l : ReconcileLoop) (step : Nat) : Nat := l.times (1.0 + spread step * part l.jitter)

def nextPause (l : ReconcileLoop) : Program Nat := do
  return l.pauseOf (← Program.pick steps)

/-- Whether a pause in nanoseconds differs from the interval by no more than it may. -/
def allows (l : ReconcileLoop) (pause : Nat) : Bool :=
  l.times (1.0 - part l.jitter) ≤ pause && pause ≤ l.times (1.0 + part l.jitter)

def plan (l : ReconcileLoop) : Program Phase := do
  let pause ← l.nextPause
  return .waiting (← Program.afterSleep ((pause + 999999) / 1000000))

def activity (l : ReconcileLoop) : Phase → Activity Phase Unit
  | .planning => .work l.plan
  | .waiting instant => .wait .stopped (some (instant, .reconciling)) .nothing
  | .reconciling => .work do
    discard (l.reconciler.syncAll l.configured)
    return .planning
  | .stopped => .finish ()

end ReconcileLoop

end NetPool
