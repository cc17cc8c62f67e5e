import NetPool.Allocation.Retry
import NetPool.Pool.Search

/-! Blocks, first fit. An attempt holds the lock of the pool while it lists the claims, picks the
earliest gap that holds a block and creates the key of that block. -/

namespace NetPool

structure BlockAllocator where
  layout : KeyLayout
  retry : Retry := ⟨3, 100⟩
  /-- Whether blocks are kept on file. -/
  cached : Bool := true

namespace BlockAllocator

def claims (a : BlockAllocator) (pool : String) : Operation (List RangeClaim) := do
  return (← readClaims a.layout .range pool RangeClaim.ofEntry).mergeSort
    fun c d => c.range.atMost d.range

def claimFirstFit (a : BlockAllocator) (p : Pool) (owner : String) : Operation RangeClaim := do
  let claimed := (← a.claims p.name).map (·.range)
  match Search.firstFit p.bounds p.firstCandidate p.blockSize claimed with
  | none => throw (.capacityExhausted p.name p.blockSize)
  | some range =>
    let key := a.layout.rangeKey p.name range.start p.blockExp
    match ← Operation.store (.create key (ClaimRecord.ofOwner owner).encode) with
    | .created _ => return { pool := p.name, range, owner }
    | .alreadyExists => throw (.collision key)

def remember (a : BlockAllocator) (c : RangeClaim) : Program Unit :=
  if a.cached then discard (Program.cache (.append c.pool c.range)) else pure ()

def forget (a : BlockAllocator) (c : RangeClaim) : Program Unit :=
  if a.cached then discard (Program.cache (.delete c.pool c.range)) else pure ()

/-- Claims one block. A block that could not be kept on file is claimed all the same. -/
def allocate (a : BlockAllocator) (p : Pool) (owner : String) : Operation RangeClaim := do
  if p.kind ≠ .range then Operation.invalid (.poolKind p.name p.kind)
  let claim ← a.retry.run p.name do
    return some (← .underLock (a.layout.mutex .range p.name) (a.claimFirstFit p owner))
  a.remember claim
  return claim

/-- Gives a block back, in the store and on file. Troubles of the store are passed over, but without
the lock the store is left alone. -/
def release (a : BlockAllocator) (c : RangeClaim) : Program Unit := do
  match ← Program.store (.lock (a.layout.mutex .range c.pool)) with
  | .error _ => a.forget c
  | .ok grant =>
    match a.layout.rangeKeyFor c.pool c.range with
    | some key => discard (Program.store (.delete key))
    | none => pure ()
    a.forget c
    discard (Program.store (.unlock grant))

end BlockAllocator

end NetPool
