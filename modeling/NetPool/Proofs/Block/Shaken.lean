import NetPool.Proofs.Block.Blocked
import NetPool.Proofs.Mishaps

/-! A call of a block allocator on a store that fails at times. However often it fails, one whole claim is
made or nothing at all, and the lock of the pool is free again. -/

namespace NetPool

namespace Retry

variable {σ α : Type} {reply : σ → (r : Request) → Option (r.Answer × σ)} {r : Retry} {pool : String}
  {once : Operation (Option α)}

/-- So many attempts in a row fail in passing, with a pause after each. -/
inductive FailsInPassing (reply : σ → (r : Request) → Option (r.Answer × σ)) (r : Retry)
    (once : Operation (Option α)) : Nat → σ → σ → Prop
  | none (s : σ) : FailsInPassing reply r once 0 s s
  | more {left : Nat} {e : Failure} {s t u v : σ} (failed : Program.run reply once s = some (.error e, t))
      (passing : e.retriable = true) (paused : (r.pause left).run reply t = some ((), u))
      (rest : FailsInPassing reply r once left u v) : FailsInPassing reply r once (left + 1) s v

theorem pause_run (sleeps : ∀ s ms, reply s (.sleep ms) = some ((), s)) (left : Nat) (s : σ) :
    (r.pause left).run reply s = some ((), s) := by
  rw [pause]
  split
  · exact Option.bind_eq_some_iff.2 ⟨_, sleeps s r.backoff, rfl⟩
  · rfl

/-- Attempts that each come to a claim, or fail and leave things as they were. The budget is used up
exactly if all attempts in it fail in passing. -/
theorem run_tries {idle : σ → Prop} {done : α → σ → Prop}
    (sleeps : ∀ s ms, reply s (.sleep ms) = some ((), s))
    (tries : ∀ s, idle s → ∃ x t, Program.run reply once s = some (x, t) ∧
      ((∃ a, x = .ok (some a) ∧ done a t) ∨
        ∃ e, x = .error e ∧ e ≠ .exhausted pool r.attempts ∧ idle t)) {s : σ} (start : idle s) :
    ∃ x t, Program.run reply (r.run pool once) s = some (x, t) ∧
      (x = .error (.exhausted pool r.attempts) ↔ ∃ u, FailsInPassing reply r once r.attempts s u) ∧
      ((∃ a, x = .ok a ∧ done a t) ∨ ∃ e, x = .error e ∧ idle t) := by
  have attempts (left : Nat) {s : σ} (start : idle s) : ∃ x t,
      Program.run reply (r.attempt pool once left) s = some (x, t) ∧
        (x = .error (.exhausted pool r.attempts) ↔ ∃ u, FailsInPassing reply r once left s u) ∧
        ((∃ a, x = .ok a ∧ done a t) ∨ ∃ e, x = .error e ∧ idle t) := by
    induction left generalizing s with
    | zero => exact ⟨_, s, rfl, ⟨fun _ => ⟨s, .none s⟩, fun _ => rfl⟩, .inr ⟨_, rfl, start⟩⟩
    | succ left ih =>
      rw [attempt_succ]
      obtain ⟨_, t, first, ⟨a, rfl, reached⟩ | ⟨e, rfl, other, still⟩⟩ := tries s start
      · refine ⟨.ok a, t, Program.run_bind_of first _, ⟨?_, ?_⟩, .inl ⟨a, rfl, reached⟩⟩
        · rintro ⟨⟩
        · rintro ⟨_, _ | ⟨failed, _, _, _⟩⟩
          cases first.symm.trans failed
      · rw [Program.run_bind_of first, onward]
        by_cases passing : e.retriable = true
        · obtain ⟨x, u, rest, all, outcome⟩ := ih still
          rw [if_pos passing, Program.run_bind_of (pause_run sleeps left t)]
          refine ⟨x, u, rest, all.trans ⟨?_, ?_⟩, outcome⟩
          · rintro ⟨v, more⟩
            exact ⟨v, .more first passing (pause_run sleeps left t) more⟩
          · rintro ⟨v, _ | ⟨failed, _, paused, more⟩⟩
            cases first.symm.trans failed
            cases (pause_run sleeps left t).symm.trans paused
            exact ⟨v, more⟩
        · rw [if_neg passing]
          refine ⟨.error e, t, rfl, ⟨fun same => absurd (Except.error.inj same) other, ?_⟩, .inr ⟨e, rfl, still⟩⟩
          rintro ⟨_, _ | ⟨failed, passes, _, _⟩⟩
          cases first.symm.trans failed
          exact absurd passes passing
  exact attempts r.attempts start

/-- An attempt is made no more often than the budget allows. -/
theorem run_asksAtMost {β : Type} {of : Request → Option β} (sleeps : ∀ ms, of (.sleep ms) = none) {n : Nat}
    (tries : Program.AsksAtMost of reply n once) :
    Program.AsksAtMost of reply (r.attempts * n) (r.run pool once) := by
  have attempts (left : Nat) : Program.AsksAtMost of reply (left * n) (r.attempt pool once left) := by
    induction left with
    | zero => exact .pure _
    | succ left ih =>
      have paused : Program.AsksAtMost of reply (left * n)
          ((r.pause left).bind fun _ => r.attempt pool once left) := by
        rw [pause]
        split
        · exact .pass (sleeps _) fun _ => ih
        · exact ih
      rw [attempt_succ, Nat.succ_mul, Nat.add_comm]
      refine .bind tries fun x => ?_
      obtain e | (_ | a) := x
      · rw [onward]
        split
        · exact paused
        · exact .pure _
      · exact paused
      · exact .pure _
  exact attempts r.attempts

end Retry

namespace BlockAllocator

/-- A claim has been made to the free block that starts first: its key is new and holds a record of the
owner, and nothing else has changed. -/
structure Claimed (a : BlockAllocator) (p : Pool) (owner : String) (s t : Store) (c : RangeClaim) :
    Prop where
  named : c = ⟨p.name, c.range, owner⟩
  first : Earliest a.layout p s (some c.range)
  written : ∃ key value record, a.layout.rangeKeyFor p.name c.range = some key ∧ s.find? key = none ∧
    ClaimRecord.decode? value = some record ∧ record.owner = owner ∧ Store.SameData (s.write key value) t

/-- What an attempt comes to. -/
inductive Attempted (a : BlockAllocator) (p : Pool) (owner : String) (s t : Store) :
    Except Failure RangeClaim → Prop
  | claimed {c : RangeClaim} (claimed : Claimed a p owner s t c) : Attempted a p owner s t (.ok c)
  | failed {e : Failure} (same : Store.SameData s t) (spent : ∀ pool n, e ≠ .exhausted pool n) :
    Attempted a p owner s t (.error e)

variable {a : BlockAllocator} {l : KeyLayout} {p : Pool} {owner : String} {s t u v : Store} {d : ShakyDesk}
  {cache : RangeCache}

theorem Earliest.congr {o : Option AddressRange} (first : Earliest l p s o) (same : Store.SameData s t) :
    Earliest l p t o := by
  have live : live l p.name t = live l p.name s := by
    rw [BlockAllocator.live, entriesOf, same.entries]
    rfl
  have free {r : AddressRange} : Free l p t r ↔ Free l p s r :=
    ⟨fun free => ⟨free.block, live ▸ free.clear⟩, fun free => ⟨free.block, live.symm ▸ free.clear⟩⟩
  cases o with
  | none => exact fun r => free.not.2 (first r)
  | some r => exact ⟨free.2 first.1, fun q other => first.2 q (free.1 other)⟩

/-- Who holds which lock does not matter. -/
theorem Attempted.congr {x : Except Failure RangeClaim} (attempted : Attempted a p owner s t x)
    (before : Store.SameData s u) (after : Store.SameData t v) : Attempted a p owner u v x := by
  cases attempted with
  | claimed claimed =>
    obtain ⟨named, first, key, value, record, slot, absent, read, owns, written⟩ := claimed
    exact .claimed ⟨named, first.congr before, key, value, record, slot, (before.find? key).trans absent,
      read, owns, ((before.write key value).symm.trans written).trans after⟩
  | failed same spent => exact .failed ((before.symm.trans same).trans after) spent

/-- The block that first fit finds is claimed, or the attempt fails. -/
theorem place_shaken (kind : p.kind = .range) (le : p.blockExp ≤ 32) (owner : String)
    (serving : d.desk.store.Serving) : ∃ x t m, Program.run (ShakyDesk.reply cache)
      (a.place p owner (a.listed (entriesOf a.layout p.name d.desk.store))) d =
        some (x, ⟨{ d.desk with store := t }, m⟩) ∧
      t.locks = d.desk.store.locks ∧ t.Serving ∧ Attempted a p owner d.desk.store t x := by
  have first := firstFit_earliest (a := a) (p := p) (s := d.desk.store)
  rw [place]
  cases found : Search.firstFit p.bounds p.firstCandidate p.blockSize
      (a.listed (entriesOf a.layout p.name d.desk.store)) with
  | none => exact ⟨_, _, _, rfl, rfl, serving, .failed (.refl _) (by rintro _ _ ⟨⟩)⟩
  | some r =>
    rw [found] at first
    dsimp only
    rw [Operation.store_bind]
    cases mishap : d.mishaps 0 with
    | some e =>
      rw [ShakyDesk.run_struck rfl mishap]
      exact ⟨_, _, _, rfl, rfl, serving, .failed (.refl _) (by rintro _ _ ⟨⟩)⟩
    | none =>
      cases stands : d.desk.store.find? (a.layout.rangeKey p.name r.start p.blockExp) with
      | some _ =>
        rw [ShakyDesk.run_spared rfl mishap (serving.serve_taken (Option.isSome_of_eq_some stands) _)]
        exact ⟨_, _, _, rfl, rfl, serving, .failed (.refl _) (by rintro _ _ ⟨⟩)⟩
      | none =>
        have slot : a.layout.rangeKeyFor p.name r =
            some (a.layout.rangeKey p.name r.start p.blockExp) :=
          KeyLayout.rangeKeyFor_eq_some.2
            ⟨p.blockExp, rfl, first.1.block.size.trans (Pool.blockSize_toNat kind le), le⟩
        rw [ShakyDesk.run_spared rfl mishap (serving.serve_created stands _)]
        exact ⟨_, _, _, rfl, rfl, serving.write _ _, .claimed ⟨rfl, first, _, _, _, slot, stands,
          ClaimRecord.decode?_encode _, rfl, .refl _⟩⟩

/-- What happens under the lock. -/
theorem claimFirstFit_shaken (kind : p.kind = .range) (le : p.blockExp ≤ 32) (cache : RangeCache)
    (owner : String) (serving : d.desk.store.Serving) : ∃ x t m,
      (a.claimFirstFit p owner).outcome.run (ShakyDesk.reply cache) d =
        some (x, ⟨{ d.desk with store := t }, m⟩) ∧
      t.locks = d.desk.store.locks ∧ t.Serving ∧ Attempted a p owner d.desk.store t x := by
  rw [claimFirstFit_eq, Operation.outcome]
  cases mishap : d.mishaps 0 with
  | some e =>
    rw [ShakyDesk.run_struck rfl mishap]
    exact ⟨_, _, _, rfl, rfl, serving, .failed (.refl _) (by rintro _ _ ⟨⟩)⟩
  | none =>
    have found : d.desk.store.serve (.range (a.layout.claimStart .range p.name)) =
        (some (.ok ⟨entriesOf a.layout p.name d.desk.store, d.desk.store.revision⟩), d.desk.store) := by
      rw [Store.serve, Store.range_of_available serving.ascending serving.available]
      rfl
    rw [ShakyDesk.run_spared rfl mishap found]
    exact place_shaken (d := ⟨d.desk, d.mishaps.rest⟩) kind le owner serving

/-- An attempt ends, with the lock free and the files as they were. -/
theorem attempt_shaken (kind : p.kind = .range) (le : p.blockExp ≤ 32) (cache : RangeCache) (owner : String)
    (quiet : Quiet a.layout p.name d.desk.store) : ∃ x e,
      Program.run (ShakyDesk.reply cache) (a.attempt p owner) d = some (x.map some, e) ∧
        Quiet a.layout p.name e.desk.store ∧ e.desk.files = d.desk.files ∧
        Attempted a p owner d.desk.store e.desk.store x := by
  have ends {x : Except Failure RangeClaim} {e : ShakyDesk} (locked : Program.run (ShakyDesk.reply cache)
      (Operation.underLock (a.layout.mutex .range p.name) (a.claimFirstFit p owner)) d = some (x, e)) :
      Program.run (ShakyDesk.reply cache) (a.attempt p owner) d = some (x.map some, e) := by
    change Program.run _ (Program.bind _ _) d = _
    rw [Program.run_bind_of locked]
    cases x <;> rfl
  cases mishap : d.mishaps 0 with
  | some e =>
    exact ⟨_, _, ends (ShakyDesk.run_unlocked mishap _ _), quiet, rfl, .failed (.refl _) (by rintro _ _ ⟨⟩)⟩
  | none =>
    obtain ⟨x, t, m, run, held, serving, attempted⟩ := claimFirstFit_shaken (a := a)
      (d := ⟨{ d.desk with store := d.desk.store.granted (a.layout.mutex .range p.name) }, d.mishaps.rest⟩)
      kind le cache owner quiet.granted
    exact ⟨x, _, ends (ShakyDesk.run_locked quiet.serving.available quiet.free mishap run),
      quiet.unlock serving held, rfl,
      attempted.congr ⟨rfl, rfl, rfl, rfl, rfl⟩ (Store.sameData_unlock _ _)⟩

theorem attempt_asksAtMost {σ : Type} {reply : σ → (r : Request) → Option (r.Answer × σ)} :
    Program.AsksAtMost Request.creates reply 1 (a.attempt p owner) := by
  have placed (claimed : List AddressRange) :
      Program.AsksAtMost Request.creates reply 1 (a.place p owner claimed) := by
    rw [place]
    split
    · exact .pure _
    · dsimp only
      rw [Operation.store_bind]
      refine .ask (n := 0) fun x => ?_
      obtain _ | (_ | _) := x <;> exact .pure _
  have read : Program.AsksAtMost Request.creates reply 1 (a.claimFirstFit p owner) := by
    rw [claimFirstFit_eq]
    refine .pass rfl fun x => ?_
    cases x with
    | error e => exact .pure _
    | ok found => exact placed _
  rw [attempt, Operation.underLock_eq]
  refine .bind (m := 1) (n := 0) (.pass rfl fun x => ?_) fun x => ?_
  · cases x with
    | error e => exact .pure _
    | ok g => exact .bind (m := 1) (n := 0) read fun x => .pass rfl fun _ => .pure x
  · cases x <;> exact .pure _

/-- The creations of a call are those of its attempts: what it puts on file is no entry of the store. -/
theorem allocate_asksAtMost {σ : Type} {reply : σ → (r : Request) → Option (r.Answer × σ)}
    (kind : p.kind = .range) :
    Program.AsksAtMost Request.creates reply a.retry.attempts (a.allocate p owner) := by
  have each : Program.AsksAtMost Request.creates reply (a.retry.attempts * 1)
      (a.retry.run p.name (a.attempt p owner)) := Retry.run_asksAtMost (fun _ => rfl) attempt_asksAtMost
  rw [allocate_eq kind]
  rw [Nat.mul_one] at each
  refine .bind (n := 0) each fun x => ?_
  cases x with
  | error f => exact .pure _
  | ok c =>
    refine .bind (m := 0) (n := 0) ?_ fun _ => .pure _
    rw [remember]
    split
    · exact .pass rfl fun _ => .pure _
    · exact .pure _

/-- A call on a store of which any requests may fail, other than to let a lock go, for a pool whose blocks
fit into the space, as those of every pool that is built do. It comes to an end. If it comes to a claim,
this is one to the free block that starts first, under a key that was not there, and nothing else in the
store has changed. If it fails, nothing has changed at all. The budget is used up exactly if all attempts
in it fail in passing; there are no more creations than attempts in it; and the lock of the pool is free
in the end. -/
theorem claims_whole_or_nothing {a : BlockAllocator} {p : Pool} (kind : p.kind = .range)
    (le : p.blockExp ≤ 32) {s : Store} (quiet : Quiet a.layout p.name s) (cache : RangeCache)
    (files : FileTree) (mishaps : Mishaps) (owner : String) :
    ∃ x e, (a.allocate p owner).outcome.run (ShakyDesk.reply cache) ⟨⟨s, files⟩, mishaps⟩ = some (x, e) ∧
      (∀ c, x = .ok c → Claimed a p owner s e.desk.store c) ∧
      (∀ f, x = .error f → Store.SameData s e.desk.store ∧ e.desk.files = files) ∧
      (x = .error (.exhausted p.name a.retry.attempts) ↔ ∃ d, a.retry.FailsInPassing
        (ShakyDesk.reply cache) (a.attempt p owner) a.retry.attempts ⟨⟨s, files⟩, mishaps⟩ d) ∧
      ((a.allocate p owner).outcome.asked Request.creates (ShakyDesk.reply cache)
        ⟨⟨s, files⟩, mishaps⟩).length ≤ a.retry.attempts ∧
      e.desk.store.isLocked (a.layout.mutex .range p.name) = false := by
  let idle (d : ShakyDesk) : Prop :=
    Quiet a.layout p.name d.desk.store ∧ d.desk.files = files ∧ Store.SameData s d.desk.store
  let done (c : RangeClaim) (d : ShakyDesk) : Prop :=
    Quiet a.layout p.name d.desk.store ∧ Claimed a p owner s d.desk.store c
  have tries (d : ShakyDesk) (start : idle d) : ∃ x e,
      Program.run (ShakyDesk.reply cache) (a.attempt p owner) d = some (x, e) ∧
        ((∃ c, x = .ok (some c) ∧ done c e) ∨
          ∃ f, x = .error f ∧ f ≠ .exhausted p.name a.retry.attempts ∧ idle e) := by
    obtain ⟨quiet, same, data⟩ := start
    obtain ⟨x, e, run, quiet, files, attempted⟩ := attempt_shaken kind le cache owner quiet
    refine ⟨_, e, run, ?_⟩
    cases attempted.congr data.symm (.refl e.desk.store) with
    | claimed claimed => exact .inl ⟨_, rfl, quiet, claimed⟩
    | failed data spent => exact .inr ⟨_, rfl, spent _ _, quiet, files.trans same, data⟩
  have idles : idle ⟨⟨s, files⟩, mishaps⟩ := ⟨quiet, rfl, .refl s⟩
  obtain ⟨x, e, run, spent, outcome⟩ := Retry.run_tries (fun _ _ => rfl) tries idles
  have few : ((a.allocate p owner).asked Request.creates (ShakyDesk.reply cache)
      ⟨⟨s, files⟩, mishaps⟩).length ≤ a.retry.attempts := allocate_asksAtMost kind _
  rw [Operation.outcome]
  rw [allocate_eq kind] at few ⊢
  rw [Program.run_bind_of run]
  rcases outcome with ⟨c, rfl, quiet, claimed⟩ | ⟨f, rfl, quiet, same, data⟩
  · obtain ⟨kept, filed⟩ := a.remember_run c cache e.desk.files
    have last := Program.run_bind_of (ShakyDesk.run_files filed) fun _ => .pure (Except.ok c : Except Failure _)
    refine ⟨.ok c, _, last, ?_, ?_, ?_, few, quiet.free⟩
    · rintro _ ⟨⟩
      exact claimed
    · rintro _ ⟨⟩
    · constructor
      · rintro ⟨⟩
      · intro all
        cases spent.2 all
  · refine ⟨.error f, e, rfl, ?_, ?_, ?_, few, quiet.free⟩
    · rintro _ ⟨⟩
    · rintro _ ⟨⟩
      exact ⟨data, same⟩
    · rw [← spent]

/-! A store that is down, and one that is down at first. -/

def down : Mishaps := fun _ => some (.unavailable "down")

/-- Each attempt ends with the lock. -/
theorem down_fails (n : Nat) (d : Desk) : (lone.retry).FailsInPassing (ShakyDesk.reply Reconciler.nook)
    (lone.attempt thirds "me") n ⟨d, down⟩ ⟨d, down⟩ := by
  induction n with
  | zero => exact .none _
  | succ n ih => exact .more rfl rfl (Retry.pause_run (fun _ _ => rfl) n _) ih

/-- The first lock is refused, and so is the first creation. -/
def hiccups : Mishaps := fun n => if n = 0 ∨ n = 3 then some (.unavailable "down") else none

/-- The first tile is claimed, and under the key of the last one stands something that is no record. -/
def crowded : Store :=
  (spoiled 2).write (lone.layout.rangeKey "blue" (thirds.tile 0).start 3) (ClaimRecord.ofOwner "you").encode

/-- While the store is down the budget is used up, and nothing is claimed. If only two attempts fail, the
third one claims the first tile that is free. -/
theorem down_claims_nothing : (∃ e,
    (lone.allocate thirds "me").outcome.run (ShakyDesk.reply Reconciler.nook)
        ⟨⟨.empty 100, ⟨[], []⟩⟩, down⟩ = some (.error (.exhausted "blue" 3), e) ∧
      Store.SameData (.empty 100) e.desk.store) ∧
    ∃ claim e, (lone.allocate thirds "me").outcome.run (ShakyDesk.reply Reconciler.nook)
        ⟨⟨crowded, ⟨[], []⟩⟩, hiccups⟩ = some (.ok claim, e) ∧
      Claimed lone thirds "me" crowded e.desk.store claim ∧ claim.range = thirds.tile 1 ∧
      ((lone.allocate thirds "me").outcome.asked Request.creates (ShakyDesk.reply Reconciler.nook)
        ⟨⟨crowded, ⟨[], []⟩⟩, hiccups⟩).length ≤ 3 ∧
      e.desk.store.isLocked (lone.layout.mutex .range "blue") = false := by
  constructor
  · have quiet : Quiet lone.layout thirds.name (.empty 100) := ⟨⟨.nil, rfl, rfl⟩, rfl⟩
    obtain ⟨x, e, run, _, failed, spent, _⟩ := claims_whole_or_nothing (a := lone) (p := thirds) rfl
      (by decide) quiet Reconciler.nook ⟨[], []⟩ down "me"
    obtain rfl := spent.2 ⟨_, down_fails _ _⟩
    exact ⟨e, run, (failed _ rfl).1⟩
  · have quiet : Quiet lone.layout thirds.name crowded :=
      ⟨(spoiled_quiet 2).serving.write _ _, rfl⟩
    obtain ⟨x, e, run, whole, _, _, few, free⟩ := claims_whole_or_nothing (a := lone) (p := thirds) rfl
      (by decide) quiet Reconciler.nook ⟨[], []⟩ hiccups "me"
    have third : ((lone.allocate thirds "me").outcome.run (ShakyDesk.reply Reconciler.nook)
        ⟨⟨crowded, ⟨[], []⟩⟩, hiccups⟩).map (·.1.toOption.map (·.range)) =
          some (some (thirds.tile 1)) := by decide +kernel
    rw [run] at third
    cases x with
    | error => cases third
    | ok claim =>
      simp only [Option.map_some, Except.toOption, Option.some.injEq] at third
      exact ⟨claim, e, run, whole claim rfl, third, few, free⟩

end BlockAllocator

end NetPool
