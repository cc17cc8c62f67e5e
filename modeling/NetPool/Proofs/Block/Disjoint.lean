import NetPool.Proofs.Block.Pass

/-! No two blocks claimed in a pool share an address, whatever the nodes that share it do. -/

namespace NetPool

namespace BlockPool

open Cluster

variable {ν : Type} [DecidableEq ν] {p : BlockPool ν} {i : ν × Nat} {s : Cluster ν}

theorem giveBack_safe {a : BlockAllocator} {c : RangeClaim} (name : c.pool = p.name) {g : Grant}
    (orderly : Orderly p s) (locked : s.Locked p i g) :
    Safe (p.order.terms i) (fun _ t => t.held i = []) (a.giveBack c g) s := by
  have deleted : Safe (p.order.terms i) (fun _ t => t.Locked p i g)
      ((a.layout.rangeKeyFor c.pool c.range).elim (.pure ()) fun key =>
        discard (Program.store (.delete key))) s := by
    cases a.layout.rangeKeyFor c.pool c.range with
    | none => exact fun t rely _ => locked.stays rely.1
    | some key =>
      intro t rely (orderly : Orderly p t) x u (answer : Answers p False i t _ x u)
      have fair := (orderly.asked answer rfl trivial).1
      have still := (locked.stays rely.1).stays (congrFun (answer.held_eq rfl) i)
      exact ⟨fair.1, fair.2, fun v rely _ => still.stays rely.1⟩
  refine Safe.bind deleted orderly fun _ t orderly locked => ?_
  have forgotten : Safe (p.order.terms i) (fun _ t => t.Locked p i g) (a.forget c) t := by
    unfold BlockAllocator.forget
    split
    · rw [name]
      intro u rely (orderly : Orderly p u) x v (answer : Answers p False i u _ x v)
      have locked := locked.stays rely.1
      have fair := orderly.dropped locked.holds answer
      have still := locked.stays (congrFun (answer.held_eq rfl) i)
      exact ⟨fair.1, fair.2, fun w rely _ => still.stays rely.1⟩
    · exact fun u rely _ => locked.stays rely.1
  refine Safe.bind forgotten orderly fun _ u orderly locked => ?_
  intro v rely (orderly : Orderly p v) x w (answer : Answers p False i v _ x w)
  have locked := locked.stays rely.1
  have fair := (orderly.asked answer rfl locked.1).1
  have idle := locked.leaves answer
  exact ⟨fair.1, fair.2, fun _ rely _ => rely.1.trans idle⟩

theorem release_safe {a : BlockAllocator} (layout : a.layout = p.layout) {c : RangeClaim}
    (name : c.pool = p.name) (idle : s.held i = []) :
    Safe (p.order.terms i) (fun _ t => t.held i = []) (a.release c) s := by
  have mutex : a.layout.mutex .range c.pool = p.lock := by rw [layout, name]; rfl
  rw [BlockAllocator.release_eq, mutex]
  intro t rely (orderly : Orderly p t) x u (answer : Answers p False i t _ x u)
  obtain ⟨g, rfl, locked⟩ := orderly.steady.enters (rely.1.trans idle) answer
  have fair := (orderly.asked answer rfl trivial).1
  exact ⟨fair.1, fair.2, giveBack_safe name fair.1 locked⟩

theorem sweepEntries_safe {identity : String} {entries : List KeyValue} {n : Nat}
    (orderly : Orderly p s) (idle : s.held i = []) : Safe (p.order.terms i)
      (fun _ t => t.held i = []) (sweepEntries identity entries n) s := by
  induction entries generalizing n s with
  | nil => exact fun t rely _ => rely.1.trans idle
  | cons e rest ih =>
    unfold sweepEntries
    split
    · rw [Operation.store_bind]
      intro t rely (orderly : Orderly p t) x u (answer : Answers p False i t _ x u)
      have fair := (orderly.asked answer rfl trivial).1
      have still : u.held i = [] := by
        rw [answer.held_eq rfl]
        exact rely.1.trans idle
      refine ⟨fair.1, fair.2, ?_⟩
      cases x with
      | error e => exact fun v rely _ => rely.1.trans still
      | ok gone => exact ih fair.1 still
    · exact ih orderly idle

theorem sweep_safe (identity : String) (idle : s.held i = []) : Safe (p.order.terms i)
    (fun _ t => t.held i = []) (sweep p.layout identity) s := by
  unfold sweep
  rw [Operation.store_bind]
  intro t rely (orderly : Orderly p t) x u (answer : Answers p False i t _ x u)
  have fair := (orderly.asked answer rfl trivial).1
  have still : u.held i = [] := by
    rw [answer.held_eq rfl]
    exact rely.1.trans idle
  refine ⟨fair.1, fair.2, ?_⟩
  cases x with
  | error e => exact fun v rely _ => rely.1.trans still
  | ok found =>
    have deleted : Safe (p.order.terms i) (Safe.Outcome (fun _ t => t.held i = []) (·.held i = []))
        (sweepEntries identity found.entries 0) u :=
      (sweepEntries_safe fair.1 still).weaken fun x t _ idle => by cases x <;> exact idle
    refine Safe.tryThen deleted fair.1 (fun n v _ idle => ?_) fun e v _ idle => ?_
    · exact fun w rely _ => rely.1.trans idle
    · exact fun w rely _ => rely.1.trans idle

theorem order_kept : p.order.Kept := by
  intro i call s on orderly idle
  cases call with
  | allocate retry cached pool owner =>
    have safe := allocate_safe (a := ⟨p.layout, retry, cached⟩) rfl on owner orderly idle
    refine Safe.bind safe orderly fun x t _ idle => ?_
    exact fun u rely _ => ⟨rely.1.trans idle, trivial⟩
  | release cached claim =>
    refine Safe.bind (release_safe rfl on idle) orderly fun x t _ idle => ?_
    exact fun u rely _ => ⟨rely.1.trans idle, trivial⟩
  | sync identity =>
    refine Safe.bind (sync_safe identity idle) orderly fun x t _ idle => ?_
    exact fun u rely _ => ⟨rely.1.trans idle, trivial⟩
  | sweep identity =>
    refine Safe.bind (sweep_safe identity idle) orderly fun x t _ idle => ?_
    exact fun u rely _ => ⟨rely.1.trans idle, trivial⟩

omit [DecidableEq ν] in
/-- The claims read are apart if and only if two entries never share an address. -/
theorem apart_claims {entries : List KeyValue} (asc : Store.Ascending entries) :
    Apart ((p.claims entries).map (·.range)) ↔ ∀ e ∈ entries, ∀ f ∈ entries, ∀ q r,
      p.Claims e q → p.Claims f r → q.overlaps r = true → e = f := by
  rw [claims, apart_decoded (asc.filter _)]
  constructor
  · rintro clear e he f hf _ _ ⟨belowE, c, readE, rfl⟩ ⟨belowF, d, readF, rfl⟩ shared
    by_contra other
    have apart := clear e (List.mem_filter.2 ⟨he, belowE⟩) f (List.mem_filter.2 ⟨hf, belowF⟩) other c d
      readE readF
    rw [apart] at shared
    cases shared
  · intro disjoint e he f hf other c d readE readF
    obtain ⟨he, belowE⟩ := List.mem_filter.1 he
    obtain ⟨hf, belowF⟩ := List.mem_filter.1 hf
    apply Bool.eq_false_iff.2
    intro shared
    exact other (disjoint e he f hf _ _ ⟨belowE, c, readE, rfl⟩ ⟨belowF, d, readF, rfl⟩ shared)

/-- Claims that are apart and stand under keys of their own stay apart in every run of allocations,
releases, reconciliations and sweeps by any number of nodes. -/
theorem claims_apart {c : Scene (Cluster ν) (ν × Nat) BlockCall (Option RangeClaim)}
    (ready : p.Ready s) (own : ∀ e ∈ s.store.entries, p.Own e)
    (apart : Apart ((p.claims s.store.entries).map (·.range))) (files : ∀ n, Apart (s.kept p n))
    (reached : Scene.Reached (p.stage False (·.On p.name)) s c) :
    Apart ((p.claims c.shared.store.entries).map (·.range)) := by
  have orderly : Orderly p s := ⟨ready.steady, files, own, (apart_claims ready.ascending).1 apart⟩
  have after : Orderly p c.shared :=
    (Agreement.reached_right order_kept orderly ready.idle reached).valid
  exact (apart_claims after.steady.ascending).2 after.sound.disjoint

theorem two_claims_apart : pair.Ready fresh ∧ (∀ e ∈ fresh.store.entries, pair.Own e) ∧
    Apart ((pair.claims fresh.store.entries).map (·.range)) ∧ (∀ n, Apart (fresh.kept pair n)) ∧
    ∃ c, Scene.Reached (pair.stage False (·.On "blue")) fresh c ∧
      (pair.claims c.shared.store.entries).map (·.owner) = ["left", "right"] ∧
      Apart ((pair.claims c.shared.store.entries).map (·.range)) := by
  have files (n) : Apart (fresh.kept pair n) := by
    rw [kept_fresh]
    exact .nil
  have run : ((played (·.On "blue") [.call (false, 0) (claimBlock true "left"), .answer (false, 0),
      .call (true, 0) (claimBlock true "right"), .answer (false, 0), .answer (false, 0),
      .answer (false, 0), .answer (true, 0), .answer (true, 0), .answer (true, 0)]).map fun c =>
        (pair.claims c.shared.store.entries).map (·.owner)) = some ["left", "right"] := by
    decide +kernel
  obtain ⟨c, played, owners⟩ := Option.map_eq_some_iff.1 run
  have reached := played_reached played (Scene.forall_calls
    (List.forall_mem_cons.2 ⟨rfl, List.forall_mem_singleton.2 rfl⟩))
  refine ⟨fresh_ready, nofun, .nil, files, c, reached, owners, ?_⟩
  exact claims_apart fresh_ready nofun .nil files reached

end BlockPool

end NetPool
