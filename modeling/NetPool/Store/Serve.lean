import NetPool.Program
import NetPool.Store.Memory

/-! How a store answers each request. -/

namespace NetPool.Store

/-- The answer to a request, or `none` while it has to wait, and the store after it. -/
def serve (s : Store) : (r : StoreRequest) → Option (Except StoreError r.Result) × Store
  | .range start => (some (s.range start), s)
  | .get key => (some (s.get key), s)
  | .create key value => let (x, s) := s.create key value; (some x, s)
  | .put key value => let (x, s) := s.put key value; (some x, s)
  | .delete key => let (x, s) := s.delete key; (some x, s)
  | .compareAndDelete key modified =>
    let (x, s) := s.compareAndDelete key modified; (some x, s)
  | .watch scope after =>
    match s.watch scope after with
    | .error e => (some (.error e), s)
    | .ok none => (none, s)
    | .ok (some batch) => (some (.ok batch), s)
  | .lock name =>
    match s.lock name with
    | (.error e, s) => (some (.error e), s)
    | (.ok none, s) => (none, s)
    | (.ok (some grant), s) => (some (.ok grant), s)
  | .unlock grant => let (x, s) := s.unlock grant; (some x, s)

/-- What those who wait have to look at again. -/
def stirred (before after : Store) : Bool :=
  before.revision ≠ after.revision || before.available ≠ after.available ||
    after.locks.length < before.locks.length

end NetPool.Store
