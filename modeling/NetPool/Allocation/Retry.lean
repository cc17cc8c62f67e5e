import NetPool.Program

/-! A bounded number of attempts with a fixed pause between two of them. -/

namespace NetPool

structure Retry where
  attempts : Nat
  backoff : Nat
deriving DecidableEq

namespace Retry

/-- No pause after the last attempt, and none of no length. -/
def pause (r : Retry) (left : Nat) : Program Unit :=
  if 0 < left ∧ 0 < r.backoff then Program.sleep r.backoff else pure ()

/-- With `left` attempts left. An attempt yields a result, finds that another writer was faster, or
fails; only a passing failure is worth another attempt. -/
def attempt (r : Retry) (pool : String) (once : Operation (Option α)) : Nat → Operation α
  | 0 => throw (.exhausted pool r.attempts)
  | left + 1 => do
    match ← (liftM once.outcome : Operation _) with
    | .ok (some a) => return a
    | .ok none => r.pause left; attempt r pool once left
    | .error e => if e.retriable then r.pause left; attempt r pool once left else throw e

def run (r : Retry) (pool : String) (once : Operation (Option α)) : Operation α :=
  r.attempt pool once r.attempts

end Retry

/-- The claims of a pool in the order of their keys. -/
def readClaims (l : KeyLayout) (kind : PoolKind) (pool : String)
    (decode : KeyLayout → KeyValue → Except Failure α) : Operation (List α) := do
  return decodeClaims (decode l) (← Operation.store (.range (l.claimStart kind pool))).entries

end NetPool
