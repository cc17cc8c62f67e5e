import NetPool.Proofs.Reconcile.Converge

/-! A call of a block allocator where nobody else writes to the store or holds the lock of the pool, and
nothing fails: what it comes to, and what it leaves in the store. -/

namespace NetPool

/-- An attempt that comes to a claim, or fails for good, is the last one. -/
theorem Retry.run_settled {σ α : Type} {reply : σ → (r : Request) → Option (r.Answer × σ)} {r : Retry}
    (pool : String) {once : Operation (Option α)} {s t : σ} {x : Except Failure α}
    (tries : 0 < r.attempts) (first : Program.run reply once s = some (x.map some, t))
    (final : ∀ e, x = .error e → e.retriable = false) :
    Program.run reply (r.run pool once) s = some (x, t) := by
  obtain ⟨left, more⟩ := Nat.exists_eq_succ_of_ne_zero (Nat.ne_of_gt tries)
  rw [Retry.run, more, Retry.attempt_succ, Program.run_bind_of first]
  cases x with
  | ok a => rfl
  | error e =>
    simp only [Except.map, Retry.onward, final e rfl, Bool.false_eq_true, if_false]
    rfl

/-- Attempts that all fail in passing and leave it at that use the budget up. -/
theorem Retry.run_exhausted {σ α : Type} {reply : σ → (r : Request) → Option (r.Answer × σ)} {r : Retry}
    (pool : String) {once : Operation (Option α)} {stuck : σ → Prop}
    (sleeps : ∀ s ms, reply s (.sleep ms) = some ((), s))
    (fails : ∀ s, stuck s → ∃ e t, Program.run reply once s = some (.error e, t) ∧
      e.retriable = true ∧ stuck t) {s : σ} (start : stuck s) :
    ∃ t, Program.run reply (r.run pool once) s = some (.error (.exhausted pool r.attempts), t) ∧
      stuck t := by
  have pauses (left : Nat) (s : σ) : Program.run reply (r.pause left) s = some ((), s) := by
    rw [pause]
    split
    · exact Option.bind_eq_some_iff.2 ⟨_, sleeps s r.backoff, rfl⟩
    · rfl
  -- For any number of attempts left: the text of the failure counts all of them.
  have attempts (left : Nat) {s : σ} (start : stuck s) : ∃ t,
      Program.run reply (r.attempt pool once left) s = some (.error (.exhausted pool r.attempts), t) ∧
        stuck t := by
    induction left generalizing s with
    | zero => exact ⟨s, rfl, start⟩
    | succ left ih =>
      obtain ⟨e, t, failed, passing, still⟩ := fails s start
      obtain ⟨u, rest, stays⟩ := ih still
      refine ⟨u, ?_, stays⟩
      rw [attempt_succ, Program.run_bind_of failed, onward, if_pos passing,
        Program.run_bind_of (pauses left t)]
      exact rest
  exact attempts r.attempts start

namespace BlockAllocator

/-- The entries that a call reads. -/
def entriesOf (l : KeyLayout) (pool : String) (s : Store) : List KeyValue :=
  s.entries.filter (startsWith ·.key (l.claimStart .range pool))

/-- The claims to blocks of a pool that a store holds. -/
def live (l : KeyLayout) (pool : String) (s : Store) : List RangeClaim :=
  decodeClaims (RangeClaim.ofEntry l) (entriesOf l pool s)

/-- A store that answers, in which nobody holds the lock of a pool. -/
structure Quiet (l : KeyLayout) (pool : String) (s : Store) : Prop where
  serving : s.Serving
  free : s.isLocked (l.mutex .range pool) = false

variable {a : BlockAllocator} {l : KeyLayout} {cache : RangeCache} {p : Pool} {d e : Desk}
  {owner pool : String} {r : AddressRange}

theorem mem_live {c : RangeClaim} {s : Store} : c ∈ live l pool s ↔ ∃ e ∈ s.entries,
    startsWith e.key (l.claimStart .range pool) = true ∧ RangeClaim.ofEntry l e = .ok c := by
  simp only [live, entriesOf, mem_decodeClaims, List.mem_filter, and_assoc]

theorem mem_listed {entries : List KeyValue} : r ∈ a.listed entries ↔
    ∃ c ∈ decodeClaims (RangeClaim.ofEntry a.layout) entries, c.range = r := by
  simp only [listed, List.mem_map, List.mem_mergeSort]

/-- An attempt that has the lock reads the claims and goes on with what it has read. -/
theorem claims_run (a : BlockAllocator) (cache : RangeCache) (p : Pool) (owner : String)
    (serving : d.store.Serving) : Program.run (Desk.reply cache) (a.claimFirstFit p owner) d =
    Program.run (Desk.reply cache) (a.place p owner (a.listed (entriesOf a.layout p.name d.store))) d := by
  have found : d.store.serve (.range (a.layout.claimStart .range p.name)) =
      (some (.ok ⟨entriesOf a.layout p.name d.store, d.store.revision⟩), d.store) := by
    rw [Store.serve, Store.range_of_available serving.ascending serving.available]
    rfl
  rw [claimFirstFit_eq, Desk.run_store found]
  rfl

theorem place_full {claimed : List AddressRange}
    (full : Search.firstFit p.bounds p.firstCandidate p.blockSize claimed = none) :
    Program.run (Desk.reply cache) (a.place p owner claimed) d =
      some (.error (.capacityExhausted p.name p.blockSize), d) := by
  rw [place, full]
  rfl

/-- The block that is found is claimed if its key can be created, and otherwise nothing is done. -/
theorem place_run {claimed : List AddressRange} {x : Creation} {t : Store}
    (found : Search.firstFit p.bounds p.firstCandidate p.blockSize claimed = some r)
    (served : d.store.serve (.create (a.layout.rangeKey p.name r.start p.blockExp)
      (ClaimRecord.ofOwner owner).encode) = (some (.ok x), t)) :
    Program.run (Desk.reply cache) (a.place p owner claimed) d = some (match x with
      | .created _ => .ok ⟨p.name, r, owner⟩
      | .alreadyExists => .error (.collision (a.layout.rangeKey p.name r.start p.blockExp)),
      { d with store := t }) := by
  rw [place, found]
  dsimp only
  rw [Operation.store_bind, Desk.run_store served]
  cases x <;> rfl

theorem place_found {claimed : List AddressRange} (serving : d.store.Serving)
    (found : Search.firstFit p.bounds p.firstCandidate p.blockSize claimed = some r)
    (absent : d.store.find? (a.layout.rangeKey p.name r.start p.blockExp) = none) :
    Program.run (Desk.reply cache) (a.place p owner claimed) d =
      some (.ok ⟨p.name, r, owner⟩, { d with
        store := d.store.write (a.layout.rangeKey p.name r.start p.blockExp)
          (ClaimRecord.ofOwner owner).encode }) :=
  place_run found (serving.serve_created absent _)

theorem place_taken {claimed : List AddressRange} {entry : KeyValue} (serving : d.store.Serving)
    (found : Search.firstFit p.bounds p.firstCandidate p.blockSize claimed = some r)
    (there : d.store.find? (a.layout.rangeKey p.name r.start p.blockExp) = some entry) :
    Program.run (Desk.reply cache) (a.place p owner claimed) d =
      some (.error (.collision (a.layout.rangeKey p.name r.start p.blockExp)), d) :=
  place_run found (serving.serve_taken (Option.isSome_of_eq_some there) _)

/-- What is kept on file, if anything is. -/
theorem remember_run (a : BlockAllocator) (c : RangeClaim) (cache : RangeCache) (t : FileTree) :
    ∃ u, (a.remember c).run cache.reply t = some ((), u) := by
  rw [remember]
  cases a.cached with
  | false => exact ⟨t, rfl⟩
  | true => exact ⟨_, rfl⟩

theorem forget_run (a : BlockAllocator) (c : RangeClaim) (cache : RangeCache) (t : FileTree) :
    ∃ u, (a.forget c).run cache.reply t = some ((), u) := by
  rw [forget]
  cases a.cached with
  | false => exact ⟨t, rfl⟩
  | true => exact ⟨_, rfl⟩

theorem Quiet.unlock {s t : Store} (quiet : Quiet l pool s) (serving : t.Serving)
    (held : t.locks = (s.granted (l.mutex .range pool)).locks) :
    Quiet l pool (t.unlock (s.grant (l.mutex .range pool))).2 :=
  ⟨serving.unlock _, Store.isLocked_unlock held quiet.free⟩

theorem Quiet.granted {s : Store} (quiet : Quiet l pool s) :
    (s.granted (l.mutex .range pool)).Serving := quiet.serving.granted _

/-- An attempt comes to what placing the block comes to, and the lock is free again. -/
theorem attempt_run {x : Except Failure RangeClaim} (quiet : Quiet a.layout p.name d.store)
    (placed : Program.run (Desk.reply cache)
      (a.place p owner (a.listed (entriesOf a.layout p.name d.store)))
      { d with store := d.store.granted (a.layout.mutex .range p.name) } = some (x, e)) :
    Program.run (Desk.reply cache) (a.attempt p owner) d = some (x.map some,
      { e with store := (e.store.unlock (d.store.grant (a.layout.mutex .range p.name))).2 }) := by
  have read := claims_run a cache p owner
    (d := { d with store := d.store.granted (a.layout.mutex .range p.name) }) quiet.granted
  have locked := Desk.run_locked quiet.serving.available quiet.free (read.trans placed)
  change Program.run _ (Program.bind _ _) d = _
  rw [Program.run_bind_of locked]
  cases x <;> rfl

/-- A call comes to what its first attempt comes to, unless that is worth another one. -/
theorem allocate_settled {x : Except Failure RangeClaim} (kind : p.kind = .range)
    (tries : 0 < a.retry.attempts) (quiet : Quiet a.layout p.name d.store)
    (placed : Program.run (Desk.reply cache)
      (a.place p owner (a.listed (entriesOf a.layout p.name d.store)))
      { d with store := d.store.granted (a.layout.mutex .range p.name) } = some (x, e))
    (final : ∀ f, x = .error f → f.retriable = false) :
    ∃ files, (a.allocate p owner).outcome.run (Desk.reply cache) d =
      some (x, ⟨(e.store.unlock (d.store.grant (a.layout.mutex .range p.name))).2, files⟩) := by
  have settled := Retry.run_settled p.name tries (attempt_run quiet placed) final
  rw [Operation.outcome, allocate_eq kind]
  change ∃ files, Program.run _ (Program.bind _ _) d = _
  rw [Program.run_bind_of settled]
  cases x with
  | error f => exact ⟨e.files, rfl⟩
  | ok c =>
    obtain ⟨files, kept⟩ := a.remember_run c cache e.files
    have kept := Desk.run_files
      (d := { e with store := (e.store.unlock (d.store.grant (a.layout.mutex .range p.name))).2 }) kept
    exact ⟨files, Program.run_bind_of kept _⟩

/-- Where no gap holds a block the call says so, and the store keeps its entries. -/
theorem allocate_full (kind : p.kind = .range) (tries : 0 < a.retry.attempts) (cache : RangeCache)
    (quiet : Quiet a.layout p.name d.store) (owner : String)
    (full : Search.firstFit p.bounds p.firstCandidate p.blockSize
      (a.listed (entriesOf a.layout p.name d.store)) = none) :
    ∃ f, (a.allocate p owner).outcome.run (Desk.reply cache) d =
        some (.error (.capacityExhausted p.name p.blockSize), f) ∧
      Quiet a.layout p.name f.store ∧ f.store.entries = d.store.entries := by
  obtain ⟨files, done⟩ :=
    allocate_settled kind tries quiet (place_full full) (by rintro f ⟨⟩; rfl)
  exact ⟨_, done, quiet.unlock quiet.granted rfl, (Store.sameData_unlock _ _).entries⟩

/-- Where the first gap that holds a block is found, the block is claimed. -/
theorem allocate_placed (kind : p.kind = .range) (tries : 0 < a.retry.attempts) (cache : RangeCache)
    (quiet : Quiet a.layout p.name d.store) (owner : String)
    (found : Search.firstFit p.bounds p.firstCandidate p.blockSize
      (a.listed (entriesOf a.layout p.name d.store)) = some r)
    (absent : d.store.find? (a.layout.rangeKey p.name r.start p.blockExp) = none) :
    ∃ f, (a.allocate p owner).outcome.run (Desk.reply cache) d = some (.ok ⟨p.name, r, owner⟩, f) ∧
      Quiet a.layout p.name f.store ∧ f.store.entries =
        (d.store.write (a.layout.rangeKey p.name r.start p.blockExp)
          (ClaimRecord.ofOwner owner).encode).entries := by
  obtain ⟨files, done⟩ :=
    allocate_settled kind tries quiet (place_found quiet.granted found absent) nofun
  exact ⟨_, done, quiet.unlock (quiet.granted.write _ _) rfl, (Store.sameData_unlock _ _).entries⟩

/-- Where the key of the first gap that holds a block is taken, each attempt comes to that key again. -/
theorem allocate_blocked (kind : p.kind = .range) (cache : RangeCache)
    (quiet : Quiet a.layout p.name d.store) (owner : String) {entry : KeyValue}
    (found : Search.firstFit p.bounds p.firstCandidate p.blockSize
      (a.listed (entriesOf a.layout p.name d.store)) = some r)
    (there : d.store.find? (a.layout.rangeKey p.name r.start p.blockExp) = some entry) :
    ∃ f, (a.allocate p owner).outcome.run (Desk.wait cache) d =
        some (.error (.exhausted p.name a.retry.attempts), f) ∧
      Quiet a.layout p.name f.store ∧ f.store.entries = d.store.entries := by
  have fails (e : Desk) (stuck : Quiet a.layout p.name e.store ∧ e.store.entries = d.store.entries) :
      ∃ fault f, Program.run (Desk.wait cache) (a.attempt p owner) e = some (.error fault, f) ∧
        fault.retriable = true ∧ Quiet a.layout p.name f.store ∧
          f.store.entries = d.store.entries := by
    obtain ⟨quiet, same⟩ := stuck
    rw [entriesOf, ← same] at found
    rw [Store.find?, ← same] at there
    exact ⟨_, _, Program.run_mono Desk.wait_of_reply
        (attempt_run quiet (place_taken quiet.granted found there)), rfl,
      quiet.unlock quiet.granted rfl, (Store.sameData_unlock _ _).entries.trans same⟩
  obtain ⟨f, done, quiet, same⟩ := Retry.run_exhausted p.name (fun _ _ => rfl) fails
    (s := d) ⟨quiet, rfl⟩
  refine ⟨f, ?_, quiet, same⟩
  rw [Operation.outcome, allocate_eq kind, Program.run_bind_of done]
  rfl

/-- A claim that the store holds is given back. -/
theorem release_run {c : RangeClaim} {entry : KeyValue} (cache : RangeCache) (quiet : Quiet a.layout c.pool d.store)
    (slot : a.layout.rangeKeyFor c.pool c.range = some entry.key)
    (found : d.store.find? entry.key = some entry) :
    ∃ f, (a.release c).run (Desk.reply cache) d = some ((), f) ∧
      Quiet a.layout c.pool f.store ∧ f.store.entries = (d.store.erase entry).entries := by
  have deleted : (d.store.granted (a.layout.mutex .range c.pool)).serve (.delete entry.key) =
      (some (.ok true), (d.store.granted (a.layout.mutex .range c.pool)).erase entry) := by
    have there : (d.store.granted (a.layout.mutex .range c.pool)).find? entry.key = some entry := found
    rw [Store.serve, Store.delete, Store.reachable_eq quiet.granted.available, there]
  obtain ⟨files, forgot⟩ := a.forget_run c cache d.files
  refine ⟨⟨(((d.store.granted (a.layout.mutex .range c.pool)).erase entry).unlock
    (d.store.grant (a.layout.mutex .range c.pool))).2, files⟩, ?_,
    quiet.unlock (quiet.granted.erase entry) rfl, (Store.sameData_unlock _ _).entries⟩
  rw [release_eq, Desk.run_store (Store.serve_lock_of_free quiet.serving.available quiet.free)]
  change Program.run _ (a.giveBack c _) _ = _
  rw [giveBack, slot]
  change Program.run _ (Program.ask (.store (.delete entry.key)) _) _ = _
  rw [Desk.run_store (d := { d with store := d.store.granted (a.layout.mutex .range c.pool) }) deleted]
  have forgot := Desk.run_files
    (d := { d with store := (d.store.granted (a.layout.mutex .range c.pool)).erase entry }) forgot
  exact Program.run_bind_of forgot _

end BlockAllocator

end NetPool
