import NetPool.Proofs.Block.Calls
import NetPool.Proofs.Running

/-! A node that works alone on its files and a store. What one pass takes off the file and puts there:
the list in memory is at each step the list on file. -/

namespace NetPool

theorem Apart.without_eq {ranges : List AddressRange} (apart : Apart ranges) {r : AddressRange}
    (here : r ∈ ranges) : Cache.without r ranges = ranges.filter (· ≠ r) := by
  induction ranges with
  | nil => cases here
  | cons a ranges ih =>
    by_cases shared : a.overlaps r = true
    · cases apart.eq List.mem_cons_self here shared
      have others : ∀ b ∈ ranges, decide (b ≠ r) = true := by
        intro b mem
        apply decide_eq_true
        rintro rfl
        exact apart.fresh mem
      have first : Cache.without r (r :: ranges) = ranges := List.eraseP_cons_of_pos shared
      rw [first, List.filter_cons, if_neg (by simp), List.filter_eq_self.2 others]
    · have other : a ≠ r := by
        rintro rfl
        exact shared a.overlaps_self
      have there := (List.mem_cons.1 here).resolve_left other.symm
      have later : Cache.without r (a :: ranges) = a :: Cache.without r ranges :=
        List.eraseP_cons_of_neg shared
      rw [later, List.filter_cons, if_pos (decide_eq_true other), ih apart.tail there]

theorem Apart.nodup {ranges : List AddressRange} (apart : Apart ranges) : ranges.Nodup := by
  refine List.Pairwise.imp ?_ apart
  rintro a _ clear rfl
  rw [a.overlaps_self] at clear
  cases clear

/-- Files that nobody else writes to. -/
def RangeCache.reply (cache : RangeCache) (t : FileTree) : (r : Request) → Option (r.Answer × FileTree)
  | .cache r => some (cache.serve t r)
  | _ => none

theorem RangeCache.run_serve {α : Type} {cache : RangeCache} {t u : FileTree} {r : CacheRequest}
    {x : Except Failure r.Result} (served : cache.serve t r = (x, u))
    (next : Except Failure r.Result → Program α) :
    (Program.ask (.cache r) next).run cache.reply t = (next x).run cache.reply u := by
  simp only [Program.run, reply, served]
  rfl

/-- A run that comes to the files only goes the same way where the files are part of something else. -/
theorem RangeCache.run_within {σ α : Type} {cache : RangeCache}
    {reply : σ → (r : Request) → Option (r.Answer × σ)} (place : FileTree → σ)
    (fits : ∀ t r, reply (place t) (.cache r) = some ((cache.serve t r).1, place (cache.serve t r).2))
    {p : Program α} {t u : FileTree} {a : α} (done : p.run cache.reply t = some (a, u)) :
    p.run reply (place t) = some (a, place u) := by
  have along {t u : FileTree} {s : σ} {r : Request} {x : r.Answer} (start : s = place t)
      (answered : cache.reply t r = some (x, u)) : ∃ s', reply s r = some (x, s') ∧ s' = place u := by
    subst start
    cases r with
    | cache r =>
      have served : cache.serve t r = (x, u) := Option.some.inj answered
      rw [fits, served]
      exact ⟨_, rfl, rfl⟩
    | store | chore | now | instant | sleep | pick | isLive | apply => cases answered
  obtain ⟨_, same, rfl⟩ := Program.run_along (fun u s => s = place u) along rfl done
  exact same

/-- A node's files beside a store. -/
structure Desk where
  store : Store
  files : FileTree

namespace Desk

/-- Nobody else writes to either. -/
def reply (cache : RangeCache) (d : Desk) : (r : Request) → Option (r.Answer × Desk)
  | .store r => (d.store.serve r).1.map fun x => (x, { d with store := (d.store.serve r).2 })
  | .cache r => some ((cache.serve d.files r).1, { d with files := (cache.serve d.files r).2 })
  | _ => none

/-- And a sleep comes to an end. -/
def wait (cache : RangeCache) (d : Desk) : (r : Request) → Option (r.Answer × Desk)
  | .sleep _ => some ((), d)
  | r => d.reply cache r

variable {α : Type} {cache : RangeCache} {d : Desk}

theorem wait_of_reply {r : Request} {x : r.Answer × Desk} (answered : d.reply cache r = some x) :
    d.wait cache r = some x := by
  cases r with
  | sleep => cases answered
  | store | cache | chore | now | instant | pick | isLive | apply => exact answered

theorem run_store {r : StoreRequest} {x : Except StoreError r.Result} {s : Store}
    (served : d.store.serve r = (some x, s)) (next : Except StoreError r.Result → Program α) :
    (Program.ask (.store r) next).run (reply cache) d = (next x).run (reply cache) { d with store := s } := by
  simp only [Program.run, reply, served]
  rfl

theorem run_cache {r : CacheRequest} {x : Except Failure r.Result} {t : FileTree}
    (served : cache.serve d.files r = (x, t)) (next : Except Failure r.Result → Program α) :
    (Program.ask (.cache r) next).run (reply cache) d = (next x).run (reply cache) { d with files := t } := by
  simp only [Program.run, reply, served]
  rfl

/-- A run that comes to the files only leaves the store as it is. -/
theorem run_files {p : Program α} {a : α} {t : FileTree} (done : p.run cache.reply d.files = some (a, t)) :
    p.run (reply cache) d = some (a, { d with files := t }) :=
  RangeCache.run_within (fun t => { d with files := t }) (fun _ _ => rfl) done

/-- What is run under a lock that is free is run, and the lock let go, however it ends. -/
theorem run_locked {o : Operation α} {name : String} {x : Except Failure α} {e : Desk}
    (available : d.store.available = true) (free : d.store.isLocked name = false)
    (within : Program.run (reply cache) o { d with store := d.store.granted name } = some (x, e)) :
    Program.run (reply cache) (Operation.underLock name o) d =
      some (x, { e with store := (e.store.unlock (d.store.grant name)).2 }) := by
  rw [Operation.underLock_eq, run_store (Store.serve_lock_of_free available free)]
  change Program.run _ (Program.bind o _) _ = _
  rw [Program.run_bind_of within]
  rfl

end Desk

namespace Reconciler

variable {cache : RangeCache} {pool : String} {t : FileTree} {ranges : List AddressRange}

theorem drop_run (filed : cache.Filed t pool ranges) (r : AddressRange) :
    (drop pool r).run cache.reply t =
        some ((Cache.overlapping? r ranges).isSome, (cache.delete t pool r).2) ∧
      cache.Filed (cache.delete t pool r).2 pool (Cache.without r ranges) := by
  obtain ⟨u, deleted, filed⟩ := filed.delete r
  rw [deleted]
  exact ⟨RangeCache.run_serve (r := .delete pool r) deleted _, filed⟩

/-- Ranges that are on file go, and the others stay. -/
theorem dropAll_run (filed : cache.Filed t pool ranges) (apart : Apart ranges)
    (gone : List AddressRange) (on : ∀ r ∈ gone, r ∈ ranges) (once : gone.Nodup) :
    ∃ u, (dropAll pool gone).run cache.reply t = some (gone.length, u) ∧
      cache.Filed u pool (ranges.filter (· ∉ gone)) := by
  induction gone generalizing t ranges with
  | nil =>
    have all : ranges.filter (· ∉ []) = ranges := List.filter_eq_self.2 fun _ _ => by simp
    exact ⟨t, rfl, all.symm ▸ filed⟩
  | cons r gone ih =>
    obtain ⟨fresh, once⟩ := List.nodup_cons.1 once
    -- The first range on file that overlaps `r` is `r` itself.
    have here := on r List.mem_cons_self
    have found : (Cache.overlapping? r ranges).isSome = true :=
      List.find?_isSome.2 ⟨r, here, r.overlaps_self⟩
    obtain ⟨first, filed⟩ := drop_run filed r
    rw [apart.without_eq here] at filed
    have on : ∀ q ∈ gone, q ∈ ranges.filter (· ≠ r) := by
      intro q mem
      refine List.mem_filter.2 ⟨on q (List.mem_cons_of_mem r mem), decide_eq_true ?_⟩
      rintro rfl
      exact fresh mem
    obtain ⟨u, rest, filed⟩ := ih filed (apart.filter _) on once
    refine ⟨u, ?_, ?_⟩
    · change Program.run _ (Program.bind (drop pool r) _) t = _
      rw [Program.run_bind_of first]
      change Program.run _ (Program.bind (dropAll pool gone) _) _ = _
      rw [Program.run_bind_of rest, found]
      rfl
    · have both : (ranges.filter (· ≠ r)).filter (· ∉ gone) = ranges.filter (· ∉ r :: gone) := by
        rw [List.filter_filter]
        exact List.filter_congr fun a _ => by simp [Bool.and_comm]
      exact both ▸ filed

/-- The ranges on file once others have been put there: these, and what overlaps none of them. -/
def Adopted (put onFile after : List AddressRange) : Prop :=
  ∀ r, r ∈ after ↔ r ∈ put ∨ (r ∈ onFile ∧ ∀ q ∈ put, r.overlaps q = false)

variable {put onFile after : List AddressRange} {q : AddressRange}

theorem Adopted.kept (rest : Adopted put onFile after) (apart : Apart onFile) (here : q ∈ onFile)
    (clear : ∀ r ∈ put, q.overlaps r = false) : Adopted (q :: put) onFile after := by
  intro r
  rw [rest r, List.mem_cons, List.forall_mem_cons]
  constructor
  · rintro (new | ⟨mem, free⟩)
    · exact .inl (.inr new)
    · by_cases same : r = q
      · exact .inl (.inl same)
      · refine .inr ⟨mem, Bool.eq_false_iff.2 fun shared => ?_, free⟩
        exact same (apart.eq mem here shared)
  · rintro ((rfl | new) | ⟨mem, _, free⟩)
    · exact .inr ⟨here, clear⟩
    · exact .inl new
    · exact .inr ⟨mem, free⟩

theorem Adopted.replaced (rest : Adopted put ((onFile.filter fun r => !r.overlaps q) ++ [q]) after)
    (clear : ∀ r ∈ put, q.overlaps r = false) : Adopted (q :: put) onFile after := by
  intro r
  rw [rest r, List.mem_cons, List.forall_mem_cons, List.mem_append, List.mem_filter,
    List.mem_singleton, Bool.not_eq_true']
  constructor
  · rintro (new | ⟨⟨mem, out⟩ | rfl, free⟩)
    · exact .inl (.inr new)
    · exact .inr ⟨mem, out, free⟩
    · exact .inl (.inl rfl)
  · rintro ((rfl | new) | ⟨mem, out, free⟩)
    · exact .inr ⟨.inr rfl, clear⟩
    · exact .inl new
    · exact .inr ⟨.inl ⟨mem, out⟩, free⟩

/-- The claims are put on file one after the other, each in place of what overlaps it. -/
theorem adopt_run {c : Reconciler} {owned : List RangeClaim} (filed : cache.Filed t pool onFile)
    (apart : Apart onFile) (disjoint : Apart (owned.map (·.range))) (report : SyncReport) :
    ∃ report' u after, (c.adopt pool report onFile owned).run cache.reply t = some (report', u) ∧
      cache.Filed u pool after ∧ Apart after ∧ Adopted (owned.map (·.range)) onFile after := by
  -- On the claims to come, for any file that holds just what the program keeps in memory.
  induction owned generalizing t onFile report with
  | nil => exact ⟨report, t, onFile, rfl, filed, apart, fun r => by simp⟩
  | cons claim owned ih =>
    obtain ⟨clear, disjoint⟩ := List.pairwise_cons.1 disjoint
    unfold adopt
    split
    · rename_i there
      obtain ⟨report', u, after, run, filed, sorted, adopted⟩ :=
        ih filed apart disjoint { report with kept := report.kept + 1 }
      exact ⟨report', u, after, run, filed, sorted,
        adopted.kept apart (List.contains_iff_mem.1 there) clear⟩
    · obtain ⟨u, dropped, filed⟩ := dropAll_run filed apart (onFile.filter (·.overlaps claim.range))
        (fun r mem => (List.mem_filter.1 mem).1) (apart.nodup.filter _)
      have left : onFile.filter (· ∉ onFile.filter (·.overlaps claim.range)) =
          onFile.filter fun r => !r.overlaps claim.range :=
        List.filter_congr fun r mem => by simp [mem]
      rw [left] at filed
      have free : Cache.overlapping? claim.range (onFile.filter fun r => !r.overlaps claim.range) = none :=
        List.find?_eq_none.2 fun r mem => by simpa using (List.mem_filter.1 mem).2
      obtain ⟨v, added, filed⟩ := filed.append free
      obtain ⟨report', w, after, run, filed, sorted, adopted⟩ := ih filed
        (Apart.append (apart.filter _) free) disjoint
        { report with
          replaced := report.replaced + (onFile.filter (·.overlaps claim.range)).length
          adopted := report.adopted + 1 }
      refine ⟨report', w, after, ?_, filed, sorted, adopted.replaced clear⟩
      change Program.run _ (Program.bind (dropAll pool _) _) t = _
      rw [Program.run_bind_of dropped]
      change Program.run _ (Program.ask (.cache (.append pool claim.range)) _) _ = _
      rw [RangeCache.run_serve (r := .append pool claim.range) added]
      exact run

end Reconciler

end NetPool
