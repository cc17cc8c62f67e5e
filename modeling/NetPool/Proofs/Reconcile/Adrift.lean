import NetPool.Proofs.Reconcile.Failing

/-! The first half of a pass in which requests fail. A claim whose turn is over is on file, or gone, or
its deletion has failed; and then so has the removal of all on file that overlaps it. -/

namespace NetPool.FailingDesk

open Reconciler

variable {c : Reconciler} {cache : RangeCache} {pool : String} {before s t : FailingDesk}
  {entries : List KeyValue} {onFile going : List AddressRange} {claim : RangeClaim}
  {rest : List RangeClaim} {r : AddressRange}

/-- The file has refused a claim, the store has not let go of it, and what overlaps it on file cannot be
removed. -/
structure Adrift (c : Reconciler) (cache : RangeCache) (pool : String) (claim : RangeClaim)
    (s : FailingDesk) : Prop where
  refused : .cache (.append pool claim.range) ∈ s.failed
  lost : ∃ key, c.layout.rangeKeyFor pool claim.range = some key ∧ .store (.delete key) ∈ s.failed
  stuck : ∀ r ∈ cache.kept s.files pool, r.overlaps claim.range = true → .cache (.delete pool r) ∈ s.failed

theorem Adrift.stays (adrift : Adrift c cache pool claim s) (more : s.failed ⊆ t.failed)
    (fewer : ∀ r ∈ cache.kept t.files pool, r.overlaps claim.range = true → r ∈ cache.kept s.files pool) :
    Adrift c cache pool claim t where
  refused := more adrift.refused
  lost := adrift.lost.imp fun _ lost => ⟨lost.1, more lost.2⟩
  stuck r mem shared := more (adrift.stuck r (fewer r mem shared) shared)

/-- A claim whose turn is over: it is on file, or gone, or adrift. -/
def Placed (c : Reconciler) (cache : RangeCache) (pool : String) (claim : RangeClaim)
    (s : FailingDesk) : Prop :=
  claim.range ∈ cache.kept s.files pool ∨ claim ∉ c.claims pool s.store ∨ Adrift c cache pool claim s

theorem Placed.stays (placed : Placed c cache pool claim s) (more : s.failed ⊆ t.failed)
    (entries : ∀ e ∈ t.store.entries, e ∈ s.store.entries)
    (keeps : claim.range ∈ cache.kept s.files pool → claim.range ∈ cache.kept t.files pool)
    (fewer : ∀ r ∈ cache.kept t.files pool, r.overlaps claim.range = true → r ∈ cache.kept s.files pool) :
    Placed c cache pool claim t := by
  rcases placed with here | gone | adrift
  · exact .inl (keeps here)
  · exact .inr (.inl fun mem => gone (claims_fewer entries mem))
  · exact .inr (.inr (adrift.stays more fewer))

/-- What the pass has read, and where the ranges on file come from. -/
structure Begun (c : Reconciler) (cache : RangeCache) (pool : String) (before : FailingDesk)
    (entries : List KeyValue) (s : FailingDesk) : Prop where
  read : entries = c.entriesOf pool before.store
  disjoint : Apart ((c.claims pool before.store).map (·.range))
  origin : ∀ r ∈ cache.kept s.files pool, r ∈ cache.kept before.files pool ∨
    ∃ claim ∈ c.owned entries, claim.range = r

theorem Begun.mem_owned (begun : Begun c cache pool before entries s) :
    claim ∈ c.owned entries ↔ claim ∈ c.claims pool before.store ∧ claim.owner = c.identity := by
  rw [Reconciler.mem_owned, begun.read]
  rfl

theorem Begun.owned_eq (begun : Begun c cache pool before entries s) {a b : RangeClaim}
    (ha : a ∈ c.owned entries) (hb : b ∈ c.owned entries) (shared : a.range.overlaps b.range = true) :
    a = b :=
  claim_eq begun.disjoint (begun.mem_owned.1 ha).1 (begun.mem_owned.1 hb).1 shared

theorem Begun.owned_key (begun : Begun c cache pool before entries s) (here : claim ∈ c.owned entries) :
    ∃ key, c.layout.rangeKeyFor pool claim.range = some key := by
  obtain ⟨e, _, _, read⟩ := mem_claims.1 (begun.mem_owned.1 here).1
  exact KeyLayout.rangeKeyFor_parse (ofEntry_parse read) pool

theorem Begun.fewer (begun : Begun c cache pool before entries s)
    (fewer : ∀ q ∈ cache.kept t.files pool, q ∈ cache.kept s.files pool) :
    Begun c cache pool before entries t :=
  ⟨begun.read, begun.disjoint, fun q mem => begun.origin q (fewer q mem)⟩

/-- Between two claims. What is on file is known to the pass, or could not be removed. -/
structure Adopted (c : Reconciler) (cache : RangeCache) (pool : String) (before : FailingDesk)
    (entries : List KeyValue) (onFile : List AddressRange) (rest : List RangeClaim)
    (s : FailingDesk) : Prop where
  begun : Begun c cache pool before entries s
  fewer : ∀ e ∈ s.store.entries, e ∈ before.store.entries
  apart : Apart onFile
  due : ∀ claim ∈ rest, claim ∈ c.owned entries
  there : ∀ r ∈ onFile, r ∈ cache.kept s.files pool
  held : ∀ r ∈ cache.kept s.files pool, r ∈ onFile ∨ .cache (.delete pool r) ∈ s.failed
  placed : ∀ claim ∈ c.owned entries, claim ∈ rest ∨ Placed c cache pool claim s

/-- While ranges make way for a claim. -/
structure Clearing (c : Reconciler) (cache : RangeCache) (pool : String) (before : FailingDesk)
    (entries : List KeyValue) (onFile : List AddressRange) (claim : RangeClaim) (rest : List RangeClaim)
    (going : List AddressRange) (s : FailingDesk) : Prop where
  begun : Begun c cache pool before entries s
  fewer : ∀ e ∈ s.store.entries, e ∈ before.store.entries
  apart : Apart onFile
  here : claim ∈ c.owned entries
  due : ∀ claim ∈ rest, claim ∈ c.owned entries
  there : ∀ r ∈ onFile, r.overlaps claim.range = false → r ∈ cache.kept s.files pool
  leaving : Apart going
  left : ∀ r ∈ going, r.overlaps claim.range = true ∧ r ∈ cache.kept s.files pool
  held : ∀ r ∈ cache.kept s.files pool, (r ∈ onFile ∧ r.overlaps claim.range = false) ∨ r ∈ going ∨
    .cache (.delete pool r) ∈ s.failed
  placed : ∀ d ∈ c.owned entries, d ∈ claim :: rest ∨ Placed c cache pool d s

theorem Adopted.kept (adopted : Adopted c cache pool before entries onFile (claim :: rest) s)
    (mem : claim.range ∈ onFile) : Adopted c cache pool before entries onFile rest s where
  begun := adopted.begun
  fewer := adopted.fewer
  apart := adopted.apart
  due d mem := adopted.due d (List.mem_cons_of_mem claim mem)
  there := adopted.there
  held := adopted.held
  placed := by
    intro d owned
    rcases adopted.placed d owned with due | placed
    · rcases List.mem_cons.1 due with rfl | later
      · exact .inr (.inl (adopted.there _ mem))
      · exact .inl later
    · exact .inr placed

theorem Adopted.begins (adopted : Adopted c cache pool before entries onFile (claim :: rest) s) :
    Clearing c cache pool before entries onFile claim rest (onFile.filter (·.overlaps claim.range)) s where
  begun := adopted.begun
  fewer := adopted.fewer
  apart := adopted.apart
  here := adopted.due claim List.mem_cons_self
  due d mem := adopted.due d (List.mem_cons_of_mem claim mem)
  there r mem _ := adopted.there r mem
  leaving := adopted.apart.filter _
  left r mem := ⟨(List.mem_filter.1 mem).2, adopted.there r (List.mem_filter.1 mem).1⟩
  held := by
    intro r mem
    rcases adopted.held r mem with known | stuck
    · cases shared : r.overlaps claim.range with
      | false => exact .inl ⟨known, rfl⟩
      | true => exact .inr (.inl (List.mem_filter.2 ⟨known, shared⟩))
    · exact .inr (.inr stuck)
  placed := adopted.placed

/-- A range that was to make way is off the file, or could not be removed. -/
theorem Clearing.drop (clearing : Clearing c cache pool before entries onFile claim rest (r :: going) s)
    (removed : Removed c cache pool r s t) :
    Clearing c cache pool before entries onFile claim rest going t := by
  obtain ⟨way, here⟩ := clearing.left r List.mem_cons_self
  constructor
  · exact clearing.begun.fewer removed.fewer
  · exact removed.store ▸ clearing.fewer
  · exact clearing.apart
  · exact clearing.here
  · exact clearing.due
  · intro q mem out
    apply removed.others q (clearing.there q mem out)
    rintro rfl
    rw [out] at way
    cases way
  · exact clearing.leaving.tail
  · intro q mem
    obtain ⟨overlaps, there⟩ := clearing.left q (List.mem_cons_of_mem r mem)
    refine ⟨overlaps, removed.others q there ?_⟩
    rintro rfl
    exact clearing.leaving.fresh mem
  · intro q mem
    by_cases same : q = r
    · subst same
      exact .inr (.inr (removed.stuck mem))
    · rcases clearing.held q (removed.fewer q mem) with known | due | stuck
      · exact .inl known
      · exact .inr (.inl ((List.mem_cons.1 due).resolve_left same))
      · exact .inr (.inr (removed.more stuck))
  · intro d owned
    by_cases late : d ∈ claim :: rest
    · exact .inl late
    · -- Owned claims are apart, so the range that goes is not that of a claim placed before.
      have placed := (clearing.placed d owned).resolve_left late
      refine .inr (placed.stays removed.more (fun e mem => removed.store ▸ mem) (fun mem => ?_)
        fun q mem _ => removed.fewer q mem)
      apply removed.others _ mem
      rintro rfl
      have same := clearing.begun.owned_eq owned clearing.here way
      exact late (same ▸ List.mem_cons_self)

theorem Clearing.add (clearing : Clearing c cache pool before entries onFile claim rest [] s)
    (answer : Answers cache pool s (.cache (.append pool claim.range)) (.ok ()) t)
    (kept : cache.kept t.files pool = cache.kept s.files pool ++ [claim.range]) :
    Adopted c cache pool before entries ((onFile.filter fun r => !r.overlaps claim.range) ++ [claim.range])
      rest t := by
  have now : claim.range ∈ cache.kept t.files pool := by simp [kept]
  have before' (q) (mem : q ∈ cache.kept s.files pool) : q ∈ cache.kept t.files pool := by simp [kept, mem]
  have back (q) (mem : q ∈ cache.kept t.files pool) : q ∈ cache.kept s.files pool ∨ q = claim.range := by
    simpa [kept] using mem
  have store : t.store = s.store := answer.2.1
  constructor
  · refine ⟨clearing.begun.read, clearing.begun.disjoint, fun q mem => ?_⟩
    rcases back q mem with old | rfl
    · exact clearing.begun.origin q old
    · exact .inr ⟨claim, clearing.here, rfl⟩
  · exact store ▸ clearing.fewer
  · apply Apart.append (clearing.apart.filter _)
    apply List.find?_eq_none.2
    intro q mem
    simpa using (List.mem_filter.1 mem).2
  · exact clearing.due
  · intro q mem
    rcases List.mem_append.1 mem with old | new
    · obtain ⟨mem, out⟩ := List.mem_filter.1 old
      exact before' q (clearing.there q mem (by simpa using out))
    · cases List.mem_singleton.1 new
      exact now
  · intro q mem
    rcases back q mem with old | rfl
    · rcases clearing.held q old with ⟨known, out⟩ | due | stuck
      · exact .inl (List.mem_append_left _ (List.mem_filter.2 ⟨known, by simpa using out⟩))
      · cases due
      · exact .inr (answer.more stuck)
    · exact .inl (List.mem_append_right _ List.mem_cons_self)
  · intro d owned
    by_cases same : d = claim
    · exact .inr (.inl (same ▸ now))
    · rcases clearing.placed d owned with due | placed
      · exact .inl ((List.mem_cons.1 due).resolve_left same)
      · -- What is added shares nothing with another claim, and so nothing more comes in its way.
        refine .inr (placed.stays answer.more (fun e mem => store ▸ mem) (before' _) fun q mem shared => ?_)
        apply (back q mem).resolve_right
        rintro rfl
        exact same (clearing.begun.owned_eq clearing.here owned shared).symm

theorem Clearing.refuse (clearing : Clearing c cache pool before entries onFile claim rest [] s)
    {e : Failure} (answer : Answers cache pool s (.cache (.append pool claim.range)) (.error e) t)
    (kept : cache.kept t.files pool = cache.kept s.files pool) :
    Clearing c cache pool before entries onFile claim rest [] t := by
  have store : t.store = s.store := answer.2.1
  constructor
  · exact clearing.begun.fewer fun q mem => kept ▸ mem
  · exact store ▸ clearing.fewer
  · exact clearing.apart
  · exact clearing.here
  · exact clearing.due
  · exact fun q mem out => kept ▸ clearing.there q mem out
  · exact .nil
  · exact nofun
  · intro q mem
    rcases clearing.held q (kept ▸ mem) with known | due | stuck
    · exact .inl known
    · cases due
    · exact .inr (.inr (answer.more stuck))
  · intro d owned
    apply (clearing.placed d owned).imp_right
    intro placed
    exact placed.stays answer.more (fun e mem => store ▸ mem) (fun mem => kept ▸ mem)
      fun q mem _ => kept ▸ mem

/-- A claim that the file has refused is gone, or its deletion has failed. -/
theorem Clearing.disown (sane : Sane c cache pool s)
    (clearing : Clearing c cache pool before entries onFile claim rest [] s)
    (refused : .cache (.append pool claim.range) ∈ s.failed) {key : String}
    (slot : c.layout.rangeKeyFor pool claim.range = some key) {x : Except StoreError Bool}
    (answer : Answers cache pool s (.store (.delete key)) x t) :
    Adopted c cache pool before entries (onFile.filter fun r => !r.overlaps claim.range) rest t := by
  have fewer := answer.fewer rfl
  have files : t.files = s.files := answer.2.1
  have held (q) (mem : q ∈ cache.kept s.files pool) : (q ∈ onFile ∧ q.overlaps claim.range = false) ∨
      .cache (.delete pool q) ∈ t.failed := by
    rcases clearing.held q mem with known | due | stuck
    · exact .inl known
    · cases due
    · exact .inr (answer.more stuck)
  constructor
  · exact clearing.begun.fewer fun q mem => files ▸ mem
  · exact fun e mem => clearing.fewer e (fewer e mem)
  · exact clearing.apart.filter _
  · exact clearing.due
  · intro q mem
    obtain ⟨mem, out⟩ := List.mem_filter.1 mem
    exact files ▸ clearing.there q mem (by simpa using out)
  · intro q mem
    apply (held q (files ▸ mem)).imp_left
    rintro ⟨known, out⟩
    exact List.mem_filter.2 ⟨known, by simpa using out⟩
  · intro d owned
    by_cases same : d = claim
    · subst same
      cases x with
      | ok gone =>
        have canonical := sane.canonical.fewer fewer
        exact .inr (.inr (.inl (canonical.gone slot answer.deleted)))
      | error e =>
        -- All that overlaps the claim was to go, so what is still there could not be removed.
        refine .inr (.inr (.inr ⟨answer.more refused, ⟨key, slot, answer.store_failed⟩, ?_⟩))
        intro q mem shared
        apply (held q (files ▸ mem)).resolve_left
        rintro ⟨_, out⟩
        rw [out] at shared
        cases shared
    · rcases clearing.placed d owned with due | placed
      · exact .inl ((List.mem_cons.1 due).resolve_left same)
      · exact .inr (placed.stays answer.more fewer (fun mem => files ▸ mem) fun q mem _ => files ▸ mem)

def adopting (c : Reconciler) (cache : RangeCache) (pool : String) (before : FailingDesk)
    (entries : List KeyValue) : Reconciler.Adopting (terms c cache pool) c pool where
  known := Adopted c cache pool before entries
  clearing := Clearing c cache pool before entries
  out onFile claim rest s := Clearing c cache pool before entries onFile claim rest [] s ∧
    .cache (.append pool claim.range) ∈ s.failed
  known_stays rely _ known := rely ▸ known
  clearing_stays rely _ clearing := rely ▸ clearing
  out_stays rely _ out := rely ▸ out
  kept mem adopted := adopted.kept mem
  begins _ _ adopted := adopted.begins
  drops {onFile claim rest r left s x t} sane clearing answer := by
    have removed := Sane.removed sane (clearing.left r List.mem_cons_self).2 answer
    exact ⟨removed.sane, trivial, clearing.drop removed⟩
  adds {onFile claim rest s t} sane clearing answer := by
    obtain ⟨sane, ⟨_, kept⟩ | ⟨⟨_, failed⟩, _⟩⟩ := Sane.appended sane answer
    · exact ⟨sane, trivial, clearing.add answer kept⟩
    · cases failed
  refuses {onFile claim rest e s t} sane clearing answer := by
    obtain ⟨sane, ⟨done, _⟩ | ⟨_, kept⟩⟩ := Sane.appended sane answer
    · cases done
    · exact ⟨sane, trivial, clearing.refuse answer kept, Answers.cache_failed answer⟩
  keyless none out := by
    obtain ⟨key, some⟩ := out.1.begun.owned_key out.1.here
    rw [some] at none
    cases none
  disowns {onFile claim rest key s x t} slot sane out answer :=
    ⟨Sane.asked sane answer rfl, trivial, out.1.disown sane out.2 slot answer⟩

end NetPool.FailingDesk
