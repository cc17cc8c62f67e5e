import NetPool.Sim.Run

/-! Sequences of operations that probe a pool: draining it, and finding out which slots it hands
out. -/

namespace NetPool.Sim

def drained (i : Nat) : String := "d" ++ Text.numeralText i

/-- Claims one slot after the other until there is none left, or `limit` of them; what was claimed,
and why it stopped. -/
def claimAll (claim : String → Operation α) (i : Nat) :
    Nat → Program (List (String × α) × Option Failure)
  | 0 => return ([], none)
  | limit + 1 => do
    match ← (claim (drained i)).outcome with
    | .error e => return ([], some e)
    | .ok a =>
      let (rest, stop) ← claimAll claim (i + 1) limit
      return ((drained i, a) :: rest, stop)

def releaseEach (release : String → α → Operation β) : List (String × α) → Program Unit
  | [] => return
  | (name, a) :: rest => do
    discard (release name a).outcome
    releaseEach release rest

/-- Claims all slots and gives them back in the same order. -/
def drain (claim : String → Operation α) (release : String → α → Operation β) (limit : Nat) :
    Program (List α × Option Failure) := do
  let (claimed, stop) ← claimAll claim 0 limit
  releaseEach release claimed
  return (claimed.map (·.2), stop)

/-- The subnets that an owner gets when it leases and gives back again and again. -/
def spread (a : LeaseAllocator) (p : Pool) (owner : String) : Nat → Operation (List Subnet)
  | 0 => return []
  | times + 1 => do
    let c ← a.acquire p owner none
    a.release c
    return c.subnet :: (← spread a p owner times)

end NetPool.Sim
