import NetPool.Proofs.Reconcile.Desk

/-! A node that works alone with a store that fails at times. A request that fails has no effect, and a
lock is let go whatever happens. -/

namespace NetPool

/-- Which of the requests to come fail, and how. -/
abbrev Mishaps := Nat → Option StoreError

/-- The mishaps that are left once a request has been made. -/
def Mishaps.rest (m : Mishaps) : Mishaps := fun n => m (n + 1)

def StoreRequest.frees : StoreRequest → Bool
  | .unlock _ => true
  | _ => false

/-- A desk, and the mishaps that await its requests to the store. -/
structure ShakyDesk where
  desk : Desk
  mishaps : Mishaps

namespace ShakyDesk

/-- Nobody else writes to the store or the files, and a sleep comes to an end. -/
def reply (cache : RangeCache) (s : ShakyDesk) : (r : Request) → Option (r.Answer × ShakyDesk)
  | .store r =>
    if r.frees then (s.desk.reply cache (.store r)).map fun x => (x.1, { s with desk := x.2 })
    else match s.mishaps 0 with
      | some e => some (.error e, { s with mishaps := s.mishaps.rest })
      | none => (s.desk.reply cache (.store r)).map fun x => (x.1, ⟨x.2, s.mishaps.rest⟩)
  | r => (s.desk.wait cache r).map fun x => (x.1, { s with desk := x.2 })

variable {α : Type} {cache : RangeCache} {s : ShakyDesk}

theorem run_struck {r : StoreRequest} {e : StoreError} (keeps : r.frees = false)
    (mishap : s.mishaps 0 = some e) (next : Except StoreError r.Result → Program α) :
    (Program.ask (.store r) next).run (reply cache) s =
      (next (.error e)).run (reply cache) { s with mishaps := s.mishaps.rest } := by
  simp only [Program.run, reply, keeps, mishap, Bool.false_eq_true, if_false]
  rfl

theorem run_spared {r : StoreRequest} {x : Except StoreError r.Result} {t : Store}
    (keeps : r.frees = false) (spared : s.mishaps 0 = none) (served : s.desk.store.serve r = (some x, t))
    (next : Except StoreError r.Result → Program α) :
    (Program.ask (.store r) next).run (reply cache) s =
      (next x).run (reply cache) ⟨{ s.desk with store := t }, s.mishaps.rest⟩ := by
  simp only [Program.run, reply, keeps, spared, Bool.false_eq_true, if_false, Desk.reply, served]
  rfl

theorem run_cache {r : CacheRequest} {x : Except Failure r.Result} {t : FileTree}
    (served : cache.serve s.desk.files r = (x, t)) (next : Except Failure r.Result → Program α) :
    (Program.ask (.cache r) next).run (reply cache) s =
      (next x).run (reply cache) { s with desk := { s.desk with files := t } } := by
  simp only [Program.run, reply, Desk.wait, Desk.reply, served]
  rfl

theorem run_files {p : Program α} {a : α} {t : FileTree} (done : p.run cache.reply s.desk.files = some (a, t)) :
    p.run (reply cache) s = some (a, { s with desk := { s.desk with files := t } }) :=
  RangeCache.run_within (fun t => { s with desk := { s.desk with files := t } }) (fun _ _ => rfl) done

/-- Without the lock nothing is run. -/
theorem run_unlocked {e : StoreError} (mishap : s.mishaps 0 = some e) (o : Operation α) (name : String) :
    Program.run (reply cache) (Operation.underLock name o) s =
      some (.error (.store e), { s with mishaps := s.mishaps.rest }) := by
  rw [Operation.underLock_eq, run_struck rfl mishap]
  rfl

/-- What is run under a lock that is granted is run, and the lock let go, however it ends. -/
theorem run_locked {o : Operation α} {name : String} {x : Except Failure α} {e : ShakyDesk}
    (available : s.desk.store.available = true) (free : s.desk.store.isLocked name = false)
    (spared : s.mishaps 0 = none)
    (within : Program.run (reply cache) o
      ⟨{ s.desk with store := s.desk.store.granted name }, s.mishaps.rest⟩ = some (x, e)) :
    Program.run (reply cache) (Operation.underLock name o) s = some (x,
      ⟨{ e.desk with store := (e.desk.store.unlock (s.desk.store.grant name)).2 }, e.mishaps⟩) := by
  rw [Operation.underLock_eq, run_spared rfl spared (Store.serve_lock_of_free available free)]
  change Program.run _ (Program.bind o _) _ = _
  rw [Program.run_bind_of within]
  rfl

end ShakyDesk

end NetPool
