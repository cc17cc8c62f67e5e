import NetPool.Store.Watch

/-! Long-lived work as a machine. Between two steps the machine says what it does next: run a program
to its end, wait for the first of several things, or finish. Whoever runs it decides how the steps of
several machines interleave. -/

namespace NetPool

/-- What a waiting machine may get. -/
inductive Source (σ : Type)
  | nothing
  /-- The end of a program, which is given up if something else comes first. -/
  | program (p : Program σ)
  /-- Room for an update in a mailbox; `false` once nobody takes updates out of it. -/
  | send (mailbox : Nat) (o : Observation) (next : Bool → σ)
  /-- The next update in a mailbox; `none` once it is empty for good. -/
  | receive (mailbox : Nat) (next : Option Observation → σ)
  /-- A failure that one of the chores cannot go on from. -/
  | fatal (next : Failure → σ)

inductive Activity (σ ρ : Type)
  | finish (r : ρ)
  | work (p : Program σ)
  /-- Waits for a request to stop, for an instant, or for a source. -/
  | wait (stopped : σ) (alarm : Option (Nat × σ)) (source : Source σ)

namespace Source

def map (f : σ → τ) : Source σ → Source τ
  | .nothing => .nothing
  | .program p => .program (f <$> p)
  | .send mailbox o next => .send mailbox o (f ∘ next)
  | .receive mailbox next => .receive mailbox (f ∘ next)
  | .fatal next => .fatal (f ∘ next)

end Source

namespace Activity

def map (f : σ → τ) (g : ρ → κ) : Activity σ ρ → Activity τ κ
  | .finish r => .finish (g r)
  | .work p => .work (f <$> p)
  | .wait stopped alarm source =>
    .wait (f stopped) (alarm.map fun (t, s) => (t, f s)) (source.map f)

end Activity

end NetPool
