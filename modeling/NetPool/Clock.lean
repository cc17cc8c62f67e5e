/-! Wall-clock time in milliseconds, as 64-bit words, and how long a sleep lasts. -/

namespace NetPool.Clock

def addSaturating (now ms : UInt64) : UInt64 :=
  if now.toNat + ms.toNat < UInt64.size then now + ms else 0xFFFFFFFFFFFFFFFF

/-- Milliseconds until a deadline; none once it has passed. -/
def remaining (now deadline : UInt64) : UInt64 := if now ≤ deadline then deadline - now else 0

/-- Thirty years of 365 days, in milliseconds. -/
def longestSleep : Nat := 946080000000

/-- Milliseconds until one who goes to sleep wakes: no sleep is longer than the longest. -/
def sleepSpan (ms : Nat) : Nat := min ms longestSleep

/-- A clock moved forward by hand goes round at 2^64. -/
def advance (now : UInt64) (ms : Nat) : UInt64 := now + UInt64.ofNat ms

end NetPool.Clock
