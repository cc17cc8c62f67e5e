import NetPool.Proofs.Block.Order

/-! A pass that reconciles a pool. Once the owned claims have been put on file, each of them is on file
or has been given up, so that what else is on file shares no address with them. -/

namespace NetPool.BlockPool

open Cluster

variable {ν : Type} {p : BlockPool ν} {i : ν × Nat} {g : Grant} {s t : Cluster ν}
  {entries : List KeyValue}

/-- What has been read under the lock is all there is of the pool, and it is sound. -/
structure Found (p : BlockPool ν) (i : ν × Nat) (g : Grant) (entries : List KeyValue)
    (s : Cluster ν) : Prop where
  locked : s.Locked p i g
  within : s.Within p entries
  below : ∀ e ∈ entries, startsWith e.key p.start = true
  sound : p.Sound entries

/-- A claim has been put on file or given up, unless its turn is yet to come. -/
def Placed (p : BlockPool ν) (i : ν × Nat) (owned rest : List RangeClaim) (s : Cluster ν) : Prop :=
  ∀ claim ∈ owned, claim ∈ rest ∨ claim.range ∈ s.kept p i.1 ∨
    ∀ e ∈ s.store.entries, ¬ p.Claims e claim.range

/-- While ranges make way for a claim. The others that were on file still are. -/
structure Clearing (c : Reconciler) (p : BlockPool ν) (i : ν × Nat) (g : Grant)
    (entries : List KeyValue) (onFile : List AddressRange) (claim : RangeClaim)
    (rest : List RangeClaim) (left : List AddressRange) (s : Cluster ν) : Prop where
  found : p.Found i g entries s
  apart : Apart onFile
  here : claim ∈ c.owned entries
  due : ∀ d ∈ rest, d ∈ c.owned entries
  placed : p.Placed i (c.owned entries) (claim :: rest) s
  there : ∀ r ∈ onFile, r.overlaps claim.range = false → r ∈ s.kept p i.1
  leaving : Apart left
  left : ∀ r ∈ left, r.overlaps claim.range = true ∧ r ∈ s.kept p i.1

structure Adopted (c : Reconciler) (p : BlockPool ν) (i : ν × Nat) (g : Grant)
    (entries : List KeyValue) (onFile : List AddressRange) (rest : List RangeClaim)
    (s : Cluster ν) : Prop where
  found : p.Found i g entries s
  apart : Apart onFile
  due : ∀ d ∈ rest, d ∈ c.owned entries
  placed : p.Placed i (c.owned entries) rest s
  there : ∀ r ∈ onFile, r ∈ s.kept p i.1

theorem Found.stays (rely : Rely p i s t) (found : p.Found i g entries s) : p.Found i g entries t :=
  ⟨found.locked.stays rely.1, rely.within found.locked.holds found.within, found.below, found.sound⟩

theorem Found.kept (rely : Rely p i s t) (found : p.Found i g entries s) {r : AddressRange}
    (mem : r ∈ s.kept p i.1) : r ∈ t.kept p i.1 :=
  (rely.2 found.locked.holds).2.subset mem

theorem Placed.stays {owned rest : List RangeClaim} (within : t.Within p s.store.entries)
    (kept : ∀ claim ∈ owned, claim ∉ rest → claim.range ∈ s.kept p i.1 → claim.range ∈ t.kept p i.1)
    (placed : p.Placed i owned rest s) : p.Placed i owned rest t := by
  intro claim mem
  by_cases due : claim ∈ rest
  · exact .inl due
  · rcases placed claim mem with due | here | gone
    · exact .inl due
    · exact .inr (.inl (kept claim mem due here))
    · exact .inr (.inr fun e there claims => gone e (within e there claims.1) claims)

theorem Clearing.stays {c : Reconciler} {onFile left : List AddressRange} {claim : RangeClaim}
    {rest : List RangeClaim} (rely : Rely p i s t)
    (clearing : Clearing c p i g entries onFile claim rest left s) :
    Clearing c p i g entries onFile claim rest left t where
  found := clearing.found.stays rely
  apart := clearing.apart
  here := clearing.here
  due := clearing.due
  placed := clearing.placed.stays (rely.2 clearing.found.locked.holds).1
    fun _ _ _ mem => clearing.found.kept rely mem
  there r mem out := clearing.found.kept rely (clearing.there r mem out)
  leaving := clearing.leaving
  left r mem := ⟨(clearing.left r mem).1, clearing.found.kept rely (clearing.left r mem).2⟩

theorem Adopted.stays {c : Reconciler} {onFile : List AddressRange} {rest : List RangeClaim}
    (rely : Rely p i s t) (adopted : Adopted c p i g entries onFile rest s) :
    Adopted c p i g entries onFile rest t where
  found := adopted.found.stays rely
  apart := adopted.apart
  due := adopted.due
  placed := adopted.placed.stays (rely.2 adopted.found.locked.holds).1
    fun _ _ _ mem => adopted.found.kept rely mem
  there r mem := adopted.found.kept rely (adopted.there r mem)

theorem Found.owned_eq {c : Reconciler} (layout : c.layout = p.layout) (found : p.Found i g entries s)
    {claim other : RangeClaim} (here : claim ∈ c.owned entries) (also : other ∈ c.owned entries)
    (shared : claim.range.overlaps other.range = true) : claim = other := by
  obtain ⟨e, he, readE⟩ := mem_decodeClaims.1 (Reconciler.mem_owned.1 here).1
  obtain ⟨f, hf, readF⟩ := mem_decodeClaims.1 (Reconciler.mem_owned.1 also).1
  rw [layout] at readE readF
  cases found.sound.disjoint e he f hf _ _ ⟨found.below e he, claim, readE, rfl⟩
    ⟨found.below f hf, other, readF, rfl⟩ shared
  exact Except.ok.inj (readE.symm.trans readF)

theorem Found.owned_key {c : Reconciler} (layout : c.layout = p.layout) (found : p.Found i g entries s)
    {claim : RangeClaim} (here : claim ∈ c.owned entries) :
    ∃ key, p.layout.rangeKeyFor p.name claim.range = some key := by
  obtain ⟨e, mem, read⟩ := mem_decodeClaims.1 (Reconciler.mem_owned.1 here).1
  rw [layout] at read
  exact ⟨e.key, found.sound.own e mem _ ⟨found.below e mem, claim, read, rfl⟩⟩

variable [DecidableEq ν]

theorem Found.filed (found : p.Found i g entries s) {r : CacheRequest} {x : Except Failure r.Result}
    (answer : Answers p False i s (.cache r) x t) : p.Found i g entries t ∧ t.store = s.store := by
  have store : t.store = s.store := (answer.aside rfl).1
  have held := congrFun (answer.held_eq rfl) i
  refine ⟨⟨found.locked.stays held, ?_, found.below, found.sound⟩, store⟩
  exact fun e mem => found.within e (store ▸ mem)

theorem Clearing.drop {c : Reconciler} (layout : c.layout = p.layout) {onFile left : List AddressRange}
    {claim : RangeClaim} {rest : List RangeClaim} {r : AddressRange} (orderly : Orderly p s)
    (clearing : Clearing c p i g entries onFile claim rest (r :: left) s)
    {x : Except Failure (Option AddressRange)}
    (answer : Answers p False i s (.cache (.delete p.name r)) x t) :
    Clearing c p i g entries onFile claim rest left t := by
  obtain ⟨found, store⟩ := clearing.found.filed answer
  have kept := answer.kept_delete orderly.steady
  obtain ⟨way, here⟩ := clearing.left r List.mem_cons_self
  -- Only the range itself goes, for all on file are apart.
  have others {q : AddressRange} (mem : q ∈ s.kept p i.1) (ne : q ≠ r) : q ∈ t.kept p i.1 := by
    rw [kept]
    refine mem_without mem (Bool.eq_false_iff.2 fun shared => ne ?_)
    exact (orderly.apart i.1).eq mem here shared
  refine ⟨found, clearing.apart, clearing.here, clearing.due, ?_, ?_, clearing.leaving.tail, ?_⟩
  · refine clearing.placed.stays (fun e mem _ => store ▸ mem) fun d owned late mem => others mem ?_
    rintro rfl
    have same := clearing.found.owned_eq layout owned clearing.here way
    exact late (same ▸ List.mem_cons_self)
  · intro q mem out
    refine others (clearing.there q mem out) ?_
    rintro rfl
    rw [out] at way
    cases way
  · intro q mem
    obtain ⟨overlaps, here⟩ := clearing.left q (List.mem_cons_of_mem r mem)
    refine ⟨overlaps, others here ?_⟩
    rintro rfl
    exact clearing.leaving.fresh mem

theorem Clearing.add {c : Reconciler} {onFile : List AddressRange} {claim : RangeClaim}
    {rest : List RangeClaim} (orderly : Orderly p s)
    (clearing : Clearing c p i g entries onFile claim rest [] s)
    (answer : Answers p False i s (.cache (.append p.name claim.range)) (.ok ()) t) :
    Adopted c p i g entries ((onFile.filter fun r => !r.overlaps claim.range) ++ [claim.range])
      rest t := by
  obtain ⟨found, store⟩ := clearing.found.filed answer
  obtain ⟨_, _, kept⟩ | ⟨⟨e, failed⟩, _⟩ := answer.kept_append orderly.steady
  · have before {q : AddressRange} (mem : q ∈ s.kept p i.1) : q ∈ t.kept p i.1 :=
      kept ▸ List.mem_append_left _ mem
    have now : claim.range ∈ t.kept p i.1 := kept ▸ List.mem_append_right _ (List.mem_singleton.2 rfl)
    refine ⟨found, ?_, clearing.due, fun d owned => ?_, fun q mem => ?_⟩
    · refine List.pairwise_append.2 ⟨clearing.apart.filter _, List.pairwise_singleton _ _, ?_⟩
      intro q mem r one
      cases List.mem_singleton.1 one
      simpa using (List.mem_filter.1 mem).2
    · rcases clearing.placed d owned with due | here | gone
      · rcases List.mem_cons.1 due with rfl | later
        · exact .inr (.inl now)
        · exact .inl later
      · exact .inr (.inl (before here))
      · exact .inr (.inr fun e mem => gone e (store ▸ mem))
    · rcases List.mem_append.1 mem with old | one
      · obtain ⟨mem, out⟩ := List.mem_filter.1 old
        exact before (clearing.there q mem (by simpa using out))
      · cases List.mem_singleton.1 one
        exact now
  · cases failed

theorem Clearing.refuse {c : Reconciler} {onFile : List AddressRange} {claim : RangeClaim}
    {rest : List RangeClaim} (orderly : Orderly p s) {e : Failure}
    (clearing : Clearing c p i g entries onFile claim rest [] s)
    (answer : Answers p False i s (.cache (.append p.name claim.range)) (.error e) t) :
    Clearing c p i g entries onFile claim rest [] t := by
  obtain ⟨found, store⟩ := clearing.found.filed answer
  obtain ⟨ok, _⟩ | ⟨_, _, kept⟩ := answer.kept_append orderly.steady
  · cases ok
  · refine ⟨found, clearing.apart, clearing.here, clearing.due, ?_, fun q mem out => ?_, .nil, nofun⟩
    · exact clearing.placed.stays (fun e mem _ => store ▸ mem) fun _ _ _ mem => kept ▸ mem
    · exact kept ▸ clearing.there q mem out

theorem Clearing.disown {c : Reconciler} {onFile : List AddressRange} {claim : RangeClaim}
    {rest : List RangeClaim} (orderly : Orderly p s) {key : String}
    (found : p.layout.rangeKeyFor p.name claim.range = some key)
    (clearing : Clearing c p i g entries onFile claim rest [] s) {x : Except StoreError Bool}
    (answer : Answers p False i s (.store (.delete key)) x t) :
    Adopted c p i g entries (onFile.filter fun r => !r.overlaps claim.range) rest t := by
  have held := congrFun (answer.held_eq rfl) i
  have fewer := (orderly.asked answer rfl trivial).2
  have kept : t.kept p i.1 = s.kept p i.1 := answer.kept_store i.1
  have gone (e) (mem : e ∈ t.store.entries) : e.key ≠ key := by
    obtain ⟨_, rfl⟩ := answer
    exact Store.ne_of_mem_delete orderly.steady.available mem
  have read := clearing.found
  refine ⟨⟨read.locked.stays held, fun e mem below => read.within e (fewer e mem below) below,
    read.below, read.sound⟩, clearing.apart.filter _, clearing.due, fun d owned => ?_,
    fun q mem => ?_⟩
  · rcases clearing.placed d owned with due | here | before
    · rcases List.mem_cons.1 due with rfl | later
      · refine .inr (.inr fun e mem claims => gone e mem ?_)
        have own := orderly.sound.own e (fewer e mem claims.1) _ claims
        exact Option.some.inj (own.symm.trans found)
      · exact .inl later
    · exact .inr (.inl (kept ▸ here))
    · exact .inr (.inr fun e mem claims => before e (fewer e mem claims.1) claims)
  · obtain ⟨mem, out⟩ := List.mem_filter.1 mem
    exact kept ▸ clearing.there q mem (by simpa using out)

def adopting {c : Reconciler} (layout : c.layout = p.layout) (i : ν × Nat) (g : Grant)
    (entries : List KeyValue) : Reconciler.Adopting (p.order.terms i) c p.name where
  known := Adopted c p i g entries
  clearing := Clearing c p i g entries
  out onFile claim rest := Clearing c p i g entries onFile claim rest []
  known_stays rely _ adopted := adopted.stays rely
  clearing_stays rely _ clearing := clearing.stays rely
  out_stays rely _ clearing := clearing.stays rely
  kept {onFile claim rest s} mem adopted := by
    refine ⟨adopted.found, adopted.apart, fun d mem => adopted.due d (List.mem_cons_of_mem _ mem),
      fun d owned => ?_, adopted.there⟩
    rcases adopted.placed d owned with due | here | gone
    · rcases List.mem_cons.1 due with rfl | later
      · exact .inr (.inl (adopted.there _ mem))
      · exact .inl later
    · exact .inr (.inl here)
    · exact .inr (.inr gone)
  begins _ _ adopted :=
    { found := adopted.found
      apart := adopted.apart
      here := adopted.due _ List.mem_cons_self
      due := fun d mem => adopted.due d (List.mem_cons_of_mem _ mem)
      placed := adopted.placed
      there := fun r mem _ => adopted.there r mem
      leaving := adopted.apart.filter _
      left := fun r mem => ⟨(List.mem_filter.1 mem).2, adopted.there r (List.mem_filter.1 mem).1⟩ }
  drops orderly clearing answer :=
    have fair := Orderly.dropped orderly clearing.found.locked.holds answer
    ⟨fair.1, fair.2, clearing.drop layout orderly answer⟩
  adds orderly clearing answer :=
    have fair := Orderly.appended orderly answer
    ⟨fair.1, fair.2, clearing.add orderly answer⟩
  refuses orderly clearing answer :=
    have fair := Orderly.appended orderly answer
    ⟨fair.1, fair.2, clearing.refuse orderly answer⟩
  keyless none clearing := by
    obtain ⟨key, some⟩ := clearing.found.owned_key layout clearing.here
    rw [layout, some] at none
    cases none
  disowns {onFile claim rest key s x t} found orderly clearing answer := by
    have answer : Answers p False i s (.store (.delete key)) x t := answer
    have fair := (Orderly.asked orderly answer rfl trivial).1
    exact ⟨fair.1, fair.2, clearing.disown orderly (layout ▸ found) answer⟩

/-- While what is on file is published. Each claim is of another node or on file, and owned if its turn
is yet to come. -/
structure Listed (c : Reconciler) (p : BlockPool ν) (i : ν × Nat) (g : Grant)
    (entries : List KeyValue) (rest : List AddressRange) (s : Cluster ν) : Prop where
  locked : s.Locked p i g
  apart : Apart rest
  there : ∀ r ∈ rest, r ∈ s.kept p i.1
  claimed : ∀ e ∈ s.store.entries, ∀ q, p.Claims e q → (∃ d ∈ c.foreign entries, d.range = q) ∨
    (q ∈ s.kept p i.1 ∧ (q ∈ rest → ∃ d ∈ c.owned entries, d.range = q))

omit [DecidableEq ν] in
theorem Listed.stays {c : Reconciler} {rest : List AddressRange} (rely : Rely p i s t)
    (listed : Listed c p i g entries rest s) : Listed c p i g entries rest t := by
  obtain ⟨within, kept⟩ := rely.2 listed.locked.holds
  refine ⟨listed.locked.stays rely.1, listed.apart, fun r mem => kept.subset (listed.there r mem),
    fun e mem q claims => ?_⟩
  rcases listed.claimed e (within e mem claims.1) q claims with other | ⟨here, own⟩
  · exact .inl other
  · exact .inr ⟨kept.subset here, own⟩

omit [DecidableEq ν] in
theorem Listed.next {c : Reconciler} {r : AddressRange} {rest : List AddressRange}
    (listed : Listed c p i g entries (r :: rest) s) : Listed c p i g entries rest s := by
  refine ⟨listed.locked, listed.apart.tail,
    fun q mem => listed.there q (List.mem_cons_of_mem r mem), fun e mem q claims => ?_⟩
  rcases listed.claimed e mem q claims with other | ⟨here, own⟩
  · exact .inl other
  · exact .inr ⟨here, fun mem => own (List.mem_cons_of_mem r mem)⟩

/-- All that is on file is listed, if there is anything at all. -/
theorem Adopted.list {c : Reconciler} (layout : c.layout = p.layout) {onFile ranges : List AddressRange}
    (orderly : Orderly p s) (adopted : Adopted c p i g entries onFile [] s)
    (answer : Answers p False i s (.cache (.load p.name)) (.ok ranges) t) :
    Listed c p i g entries ranges t := by
  obtain ⟨found, store⟩ := adopted.found.filed answer
  have kept := answer.kept_load i.1
  have listed := orderly.listed answer
  refine ⟨found.locked, listed.1, fun r mem => kept ▸ listed.2 r mem, fun e mem q claims => ?_⟩
  obtain ⟨below, d, read, rfl⟩ := claims
  have decoded : d ∈ decodeClaims (RangeClaim.ofEntry c.layout) entries :=
    mem_decodeClaims.2 ⟨e, found.within e mem below, layout ▸ read⟩
  by_cases mine : d.owner = c.identity
  · have owned := Reconciler.mem_owned.2 ⟨decoded, mine⟩
    rcases adopted.placed d owned with due | here | gone
    · cases due
    · exact .inr ⟨kept ▸ here, fun _ => ⟨d, owned, rfl⟩⟩
    · exact absurd ⟨below, d, read, rfl⟩ (gone e (store ▸ mem))
  · exact .inl ⟨d, Reconciler.mem_foreign.2 ⟨decoded, mine⟩, rfl⟩

theorem Listed.drop {c : Reconciler} {r : AddressRange} {rest : List AddressRange}
    (orderly : Orderly p s) (listed : Listed c p i g entries (r :: rest) s)
    (absent : ∀ d ∈ c.owned entries, d.range ≠ r) {x : Except Failure (Option AddressRange)}
    (answer : Answers p False i s (.cache (.delete p.name r)) x t) :
    Listed c p i g entries rest t := by
  have store : t.store = s.store := (answer.aside rfl).1
  have held := congrFun (answer.held_eq rfl) i
  have kept := answer.kept_delete orderly.steady
  have here := listed.there r List.mem_cons_self
  have others {q : AddressRange} (mem : q ∈ s.kept p i.1) (ne : q ≠ r) : q ∈ t.kept p i.1 := by
    rw [kept]
    refine mem_without mem (Bool.eq_false_iff.2 fun shared => ne ?_)
    exact (orderly.apart i.1).eq mem here shared
  refine ⟨listed.locked.stays held, listed.apart.tail, fun q mem => ?_, fun e mem q claims => ?_⟩
  · refine others (listed.there q (List.mem_cons_of_mem r mem)) ?_
    rintro rfl
    exact listed.apart.fresh mem
  · rcases listed.claimed e (store ▸ mem) q claims with other | ⟨there, own⟩
    · exact .inl other
    · refine .inr ⟨others there ?_, fun mem => own (List.mem_cons_of_mem r mem)⟩
      rintro rfl
      obtain ⟨d, owned, same⟩ := own List.mem_cons_self
      exact absent d owned same

/-- The range published keeps clear of all claims: of those on file as it is on file itself, and of the
others as it was checked. -/
theorem Listed.create {c : Reconciler} {r : AddressRange} {rest : List AddressRange}
    (orderly : Orderly p s) (listed : Listed c p i g entries (r :: rest) s)
    (apart : ∀ d ∈ c.foreign entries, d.range.overlaps r = false) {key : String}
    (found : p.layout.rangeKeyFor p.name r = some key) {value : Bytes} {x : Except StoreError Creation}
    (answer : Answers p False i s (.store (.create key value)) x t) : Fair p i s t ∧
      (x = .ok .alreadyExists → Listed c p i g entries (r :: rest) t) ∧
      (x ≠ .ok .alreadyExists → Listed c p i g entries rest t) := by
  have here := listed.there r List.mem_cons_self
  have fair : Fair p i s t := by
    refine orderly.created (r := r) listed.locked.holds (fun e same q claims => ?_)
      (fun e mem q claims ne => Bool.eq_false_iff.2 fun shared => ne ?_) answer
    · exact ⟨claims.eq_of_key (same ▸ found), found⟩
    · rcases listed.claimed e mem q claims with ⟨d, other, rfl⟩ | ⟨there, _⟩
      · rw [apart d other] at shared
        cases shared
      · cases (orderly.apart i.1).eq there here shared
        exact Option.some.inj ((orderly.sound.own e mem _ claims).symm.trans found)
  have locked := listed.locked.stays (congrFun (answer.held_eq rfl) i)
  have kept : t.kept p i.1 = s.kept p i.1 := answer.kept_store i.1
  have there (q) (mem : q ∈ r :: rest) : q ∈ t.kept p i.1 := kept ▸ listed.there q mem
  refine ⟨fair, ?_⟩
  obtain ⟨exist, same⟩ | ⟨⟨revision, made⟩, written⟩ := answer.create_cases orderly.steady
  · refine ⟨fun _ => ⟨locked, listed.apart, there, fun e mem q claims => ?_⟩,
      fun free => absurd exist free⟩
    rw [kept]
    exact listed.claimed e (same ▸ mem) q claims
  · refine ⟨fun exist => absurd (made.symm.trans exist) nofun, fun _ => ⟨locked, listed.apart.tail,
      fun q mem => there q (List.mem_cons_of_mem r mem), fun e mem q claims => ?_⟩⟩
    rw [kept]
    have entry : e = s.store.written key value ∨ e ∈ s.store.entries ∧ e.key ≠ key :=
      (Store.mem_write orderly.steady.ascending).1 (written ▸ mem)
    rcases entry with rfl | ⟨old, _⟩
    · have same : q = r := claims.eq_of_key found
      exact .inr ⟨same ▸ here, fun mem => absurd (same ▸ mem) listed.apart.fresh⟩
    · rcases listed.claimed e old q claims with other | ⟨there, own⟩
      · exact .inl other
      · exact .inr ⟨there, fun mem => own (List.mem_cons_of_mem r mem)⟩

theorem publish_safe {c : Reconciler} (layout : c.layout = p.layout) {r : AddressRange}
    {rest : List AddressRange} (report : SyncReport) (orderly : Orderly p s)
    (listed : Listed c p i g entries (r :: rest) s) :
    Safe (p.order.terms i)
      (Safe.Outcome (fun _ => Listed c p i g entries rest) (Listed c p i g entries rest))
      (c.publish p.name (c.owned entries) (c.foreign entries) report r) s := by
  refine Reconciler.publish_safe (T := p.order.terms i) (Listed c p i g entries (r :: rest))
    (Listed c p i g entries rest) (fun rely _ listed => listed.stays rely)
    (fun rely _ listed => listed.stays rely) (fun _ listed => listed.next)
    (fun {s x t} absent orderly listed (answer : Answers p False i s _ x t) => ?_)
    (fun {key s x t} absent apart found orderly listed (answer : Answers p False i s _ x t) => ?_)
    listed orderly
  · have fair := Orderly.dropped orderly listed.locked.holds answer
    exact ⟨fair.1, fair.2, listed.drop orderly absent answer⟩
  · obtain ⟨fair, taken, free⟩ := listed.create orderly apart (layout ▸ found) answer
    exact ⟨fair.1, fair.2, taken, free⟩

theorem syncLocked_safe {c : Reconciler} (layout : c.layout = p.layout) (locked : s.Locked p i g) :
    Safe (p.order.terms i) (fun _ t => t.Locked p i g) (c.syncLocked p.name) s := by
  have start : c.layout.claimStart .range p.name = p.start := by rw [layout]; rfl
  refine Reconciler.syncLocked_safe (T := p.order.terms i) (fun t => t.Locked p i g)
    (fun t => t.Locked p i g) (fun entries => p.Found i g entries)
    (fun entries => Listed c p i g entries) (adopting layout i g)
    (fun rely _ locked => locked.stays rely.1) (fun rely _ found => found.stays rely)
    (fun rely _ listed => listed.stays rely) (fun rely _ locked => locked.stays rely.1)
    (fun {s x t} orderly locked (answer : Answers p False i s _ x t) => ?_)
    (fun {entries s x t} orderly found (answer : Answers p False i s _ x t) => ?_)
    (fun {entries onFile s x t} orderly adopted (answer : Answers p False i s _ x t) => ?_)
    (publish_safe layout) (fun listed => listed.locked) locked
  · rw [start] at answer ⊢
    have fair := (Orderly.asked orderly answer rfl trivial).1
    obtain ⟨_, snapshot, rfl, known, read⟩ := Known.read orderly.steady locked answer
    refine ⟨fair.1, fair.2, known.1, known.2, fun e mem => ?_, ?_⟩
    · rw [read] at mem
      exact (List.mem_filter.1 mem).2
    · refine Sound.within orderly.sound fun e mem _ => ?_
      rw [read] at mem
      exact (List.mem_filter.1 mem).1
  · have fair := Orderly.loaded orderly answer
    obtain ⟨after, _⟩ := found.filed answer
    refine ⟨fair.1, fair.2, ?_⟩
    cases x with
    | error e => exact after.locked
    | ok onFile =>
      have kept := answer.kept_load i.1
      have listed := Orderly.listed orderly answer
      exact ⟨after, listed.1, fun d mem => mem, fun d mem => .inl mem, fun r mem => kept ▸ listed.2 r mem⟩
  · have fair := Orderly.loaded orderly answer
    refine ⟨fair.1, fair.2, ?_⟩
    cases x with
    | error e => exact (adopted.found.filed answer).1.locked
    | ok ranges => exact adopted.list layout orderly answer

theorem sync_safe (identity : String) (idle : s.held i = []) : Safe (p.order.terms i)
    (fun _ t => t.held i = []) (Reconciler.sync ⟨p.layout, identity⟩ p.name) s := by
  refine (locked_safe (fun _ => True) (fun _ locked => ?_) idle).weaken fun _ _ _ known => known.1
  exact (syncLocked_safe rfl locked).weaken fun _ _ _ locked => ⟨locked, trivial⟩

end NetPool.BlockPool
