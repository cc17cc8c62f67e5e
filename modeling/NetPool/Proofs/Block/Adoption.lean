import NetPool.Proofs.Block.Handed

/-! A pass among allocations. What it puts on file it has made room for, so it is refused a range only
if the file has changed since it was loaded. -/

namespace NetPool.BlockPool

open Cluster

variable {ν : Type} {p : BlockPool ν} {calm : Prop} {i : ν × Nat} {g : Grant} {s t : Cluster ν}
  {entries : List KeyValue} {c : Reconciler}

/-- A pass that has loaded its file. In a calm cluster it knows what is on it. -/
structure Loaded (c : Reconciler) (p : BlockPool ν) (calm : Prop) (i : ν × Nat) (g : Grant)
    (entries : List KeyValue) (onFile : List AddressRange) (rest : List RangeClaim)
    (s : Cluster ν) : Prop where
  minds : p.Minds i g s
  loaded : s.loaded i = true
  due : ∀ d ∈ rest, d ∈ c.owned entries
  apart : calm → Apart onFile
  same : calm → ∀ r, r ∈ s.kept p i.1 ↔ r ∈ onFile

/-- While ranges make way for a claim. Of those in its way, the ones left are on file. -/
structure MakingWay (c : Reconciler) (p : BlockPool ν) (calm : Prop) (i : ν × Nat) (g : Grant)
    (entries : List KeyValue) (onFile : List AddressRange) (claim : RangeClaim)
    (rest : List RangeClaim) (left : List AddressRange) (s : Cluster ν) : Prop where
  minds : p.Minds i g s
  loaded : s.loaded i = true
  here : claim ∈ c.owned entries
  due : ∀ d ∈ rest, d ∈ c.owned entries
  apart : calm → Apart onFile
  leaving : calm → Apart left
  within : ∀ r ∈ left, r ∈ onFile ∧ r.overlaps claim.range = true
  same : calm → ∀ r, r ∈ s.kept p i.1 ↔ r ∈ onFile ∧ (r.overlaps claim.range = true → r ∈ left)

/-- A pass that has been refused the range of a claim. -/
structure Refused (c : Reconciler) (calm : Prop) (p : BlockPool ν) (i : ν × Nat) (g : Grant)
    (entries : List KeyValue) (claim : RangeClaim) (rest : List RangeClaim) (s : Cluster ν) :
    Prop where
  locked : s.Locked p i g
  loaded : s.loaded i = true
  doomed : s.doomed i = some claim.range
  refused : claim.range ∈ s.refused
  here : claim ∈ c.owned entries
  due : ∀ d ∈ rest, d ∈ c.owned entries
  uncalm : ¬ calm

theorem Loaded.stays {onFile : List AddressRange} {rest : List RangeClaim}
    (counts : Counts p calm i s t) (known : Loaded c p calm i g entries onFile rest s) :
    Loaded c p calm i g entries onFile rest t where
  minds := known.minds.stays counts
  loaded := counts.loaded.trans known.loaded
  due := known.due
  apart := known.apart
  same calmly := by
    rw [counts.kept calmly known.loaded]
    exact known.same calmly

theorem MakingWay.stays {onFile left : List AddressRange} {claim : RangeClaim}
    {rest : List RangeClaim} (counts : Counts p calm i s t)
    (known : MakingWay c p calm i g entries onFile claim rest left s) :
    MakingWay c p calm i g entries onFile claim rest left t where
  minds := known.minds.stays counts
  loaded := counts.loaded.trans known.loaded
  here := known.here
  due := known.due
  apart := known.apart
  leaving := known.leaving
  within := known.within
  same calmly := by
    rw [counts.kept calmly known.loaded]
    exact known.same calmly

theorem Refused.stays {claim : RangeClaim} {rest : List RangeClaim} (counts : Counts p calm i s t)
    (known : Refused c calm p i g entries claim rest s) : Refused c calm p i g entries claim rest t where
  locked := known.locked.stays counts.held
  loaded := counts.loaded.trans known.loaded
  doomed := counts.doomed.trans known.doomed
  refused := counts.leaves.refused known.refused
  here := known.here
  due := known.due
  uncalm := known.uncalm

theorem owned_key (layout : c.layout = p.layout) {claim : RangeClaim} (here : claim ∈ c.owned entries) :
    ∃ key, p.layout.rangeKeyFor p.name claim.range = some key := by
  obtain ⟨e, _, read⟩ := mem_decodeClaims.1 (Reconciler.mem_owned.1 here).1
  rw [layout] at read
  exact KeyLayout.rangeKeyFor_parse (ofEntry_parse read) p.name

variable [DecidableEq ν]

theorem drop_kept (tended : Tended p calm s) (minds : p.Minds i g s) {r : AddressRange}
    {x : Except Failure (Option AddressRange)}
    (answer : Answers p calm i s (.cache (.delete p.name r)) x t) :
    Deed p calm i s (.cache (.delete p.name r)) t ∧ p.Minds i g t ∧ t.loaded i = s.loaded i := by
  have deed : Deed p calm i s (.cache (.delete p.name r)) t := by
    refine tended.filed minds.free answer rfl nofun (fun calmly => ⟨rfl, ?_⟩)
      (.inl minds.locked.holds)
    rw [answer.kept_delete tended.steady]
    exact ((tended.calmly calmly).2 i.1).1.without r
  obtain ⟨doomed, _, loaded⟩ := answer.after_file
  exact ⟨deed, ⟨minds.locked.stays (congrFun (answer.held_eq rfl) i), doomed⟩, loaded⟩

theorem load_kept (tended : Tended p calm s) (minds : p.Minds i g s)
    {x : Except Failure (List AddressRange)}
    (answer : Answers p calm i s (.cache (.load p.name)) x t) :
    Deed p calm i s (.cache (.load p.name)) t ∧ p.Minds i g t ∧ t.loaded i = !s.loaded i := by
  have deed : Deed p calm i s (.cache (.load p.name)) t := by
    refine tended.filed minds.free answer trivial (fun _ => minds.locked.holds)
      (fun calmly => ⟨rfl, ?_⟩) (.inl minds.locked.holds)
    rw [answer.kept_load i.1]
    exact ((tended.calmly calmly).2 i.1).1
  obtain ⟨doomed, _, loaded⟩ := answer.after_file
  exact ⟨deed, ⟨minds.locked.stays (congrFun (answer.held_eq rfl) i), doomed⟩, loaded⟩

theorem MakingWay.drop {onFile left : List AddressRange} {claim : RangeClaim} {rest : List RangeClaim}
    {r : AddressRange} (tended : Tended p calm s)
    (known : MakingWay c p calm i g entries onFile claim rest (r :: left) s)
    {x : Except Failure (Option AddressRange)}
    (answer : Answers p calm i s (.cache (.delete p.name r)) x t) :
    Deed p calm i s (.cache (.delete p.name r)) t ∧
      MakingWay c p calm i g entries onFile claim rest left t := by
  obtain ⟨deed, minds, loaded⟩ := drop_kept tended known.minds answer
  refine ⟨deed, minds, loaded.trans known.loaded, known.here, known.due, known.apart,
    fun calmly => (known.leaving calmly).tail,
    fun q mem => known.within q (List.mem_cons_of_mem r mem), fun calmly q => ?_⟩
  have files := ((tended.calmly calmly).2 i.1).1
  have there : r ∈ s.kept p i.1 :=
    (known.same calmly r).2 ⟨(known.within r List.mem_cons_self).1, fun _ => List.mem_cons_self⟩
  have gone : q ∈ t.kept p i.1 ↔ q ∈ s.kept p i.1 ∧ q ≠ r := by
    rw [answer.kept_delete tended.steady]
    exact Apart.mem_without files there
  rw [gone, known.same calmly q]
  constructor
  · rintro ⟨⟨mem, way⟩, ne⟩
    exact ⟨mem, fun shared => (List.mem_cons.1 (way shared)).resolve_left ne⟩
  · rintro ⟨mem, way⟩
    refine ⟨⟨mem, fun shared => List.mem_cons_of_mem r (way shared)⟩, ?_⟩
    rintro rfl
    exact (known.leaving calmly).fresh (way (known.within q List.mem_cons_self).2)

omit [DecidableEq ν] in
/-- What has made way for a claim is all that overlaps it, if the file is as it was loaded. -/
theorem MakingWay.clear {onFile : List AddressRange} {claim : RangeClaim} {rest : List RangeClaim}
    (known : MakingWay c p calm i g entries onFile claim rest [] s) (calmly : calm) :
    Cache.overlapping? claim.range (s.kept p i.1) = none := by
  refine List.find?_eq_none.2 fun r mem shared => ?_
  have way := ((known.same calmly r).1 mem).2 shared
  cases way

theorem MakingWay.add {onFile : List AddressRange} {claim : RangeClaim} {rest : List RangeClaim}
    (tended : Tended p calm s) (known : MakingWay c p calm i g entries onFile claim rest [] s)
    (answer : Answers p calm i s (.cache (.append p.name claim.range)) (.ok ()) t) :
    Deed p calm i s (.cache (.append p.name claim.range)) t ∧
      Loaded c p calm i g entries ((onFile.filter fun r => !r.overlaps claim.range) ++ [claim.range])
        rest t := by
  obtain ⟨_, free, kept⟩ | ⟨⟨e, failed⟩, _⟩ := answer.kept_append tended.steady
  · have deed : Deed p calm i s (.cache (.append p.name claim.range)) t := by
      refine tended.filed known.minds.free answer rfl nofun (fun calmly => ⟨rfl, ?_⟩)
        (.inl known.minds.locked.holds)
      rw [kept]
      exact ((tended.calmly calmly).2 i.1).1.append free
    obtain ⟨doomed, _, loaded⟩ := answer.after_file
    have minds : p.Minds i g t :=
      ⟨known.minds.locked.stays (congrFun (answer.held_eq rfl) i), doomed⟩
    refine ⟨deed, minds, loaded.trans known.loaded, known.due, fun calmly => ?_, fun calmly r => ?_⟩
    · refine List.pairwise_append.2
        ⟨(known.apart calmly).filter _, List.pairwise_singleton _ _, fun q mem r one => ?_⟩
      cases List.mem_singleton.1 one
      simpa using (List.mem_filter.1 mem).2
    · rw [kept, List.mem_append, List.mem_append, known.same calmly r, List.mem_filter]
      simp
  · cases failed

theorem MakingWay.refuse {onFile : List AddressRange} {claim : RangeClaim} {rest : List RangeClaim}
    (tended : Tended p calm s) (known : MakingWay c p calm i g entries onFile claim rest [] s)
    {e : Failure} (answer : Answers p calm i s (.cache (.append p.name claim.range)) (.error e) t) :
    Deed p calm i s (.cache (.append p.name claim.range)) t ∧
      Refused c calm p i g entries claim rest t := by
  obtain ⟨ok, _⟩ | ⟨_, ⟨q, found⟩, kept⟩ := answer.kept_append tended.steady
  · cases ok
  · have uncalm : ¬ calm := by
      intro calmly
      rw [known.clear calmly] at found
      cases found
    have deed : Deed p calm i s (.cache (.append p.name claim.range)) t :=
      tended.filed known.minds.free answer rfl nofun (fun calmly => absurd calmly uncalm)
        (.inl known.minds.locked.holds)
    obtain ⟨doomed, refused, loaded⟩ := answer.after_file
    rw [known.loaded] at doomed refused
    refine ⟨deed, known.minds.locked.stays (congrFun (answer.held_eq rfl) i),
      loaded.trans known.loaded, doomed, ?_, known.here, known.due, uncalm⟩
    rw [refused]
    exact List.mem_cons_self

theorem Refused.disown {claim : RangeClaim} {rest : List RangeClaim} (tended : Tended p calm s)
    (known : Refused c calm p i g entries claim rest s) {key : String}
    (found : p.layout.rangeKeyFor p.name claim.range = some key) {x : Except StoreError Bool}
    (answer : Answers p calm i s (.store (.delete key)) x t) (onFile : List AddressRange) :
    Deed p calm i s (.store (.delete key)) t ∧ Loaded c p calm i g entries onFile rest t := by
  have deed := tended.gives known.doomed known.refused found answer
  obtain ⟨free, loaded⟩ := answer.after_store
  exact ⟨deed, ⟨known.locked.stays (congrFun (answer.held_eq rfl) i), free⟩,
    loaded.trans known.loaded, known.due, fun calmly => absurd calmly known.uncalm,
    fun calmly => absurd calmly known.uncalm⟩

def tending (layout : c.layout = p.layout) (calm : Prop) (i : ν × Nat) (g : Grant)
    (entries : List KeyValue) : Reconciler.Adopting ((p.care calm).terms i) c p.name where
  known := Loaded c p calm i g entries
  clearing := MakingWay c p calm i g entries
  out _ claim rest := Refused c calm p i g entries claim rest
  known_stays counts _ known := known.stays counts
  clearing_stays counts _ known := known.stays counts
  out_stays counts _ known := known.stays counts
  kept _ known :=
    ⟨known.minds, known.loaded, fun d mem => known.due d (List.mem_cons_of_mem _ mem), known.apart,
      known.same⟩
  begins {onFile claim rest s} _ _ known :=
    { minds := known.minds
      loaded := known.loaded
      here := known.due claim List.mem_cons_self
      due := fun d mem => known.due d (List.mem_cons_of_mem claim mem)
      apart := known.apart
      leaving := fun calmly => (known.apart calmly).filter _
      within := fun r mem => List.mem_filter.1 mem
      same := fun calmly r => (known.same calmly r).trans
        ⟨fun mem => ⟨mem, fun shared => List.mem_filter.2 ⟨mem, shared⟩⟩, fun both => both.1⟩ }
  drops tended known answer :=
    have after := known.drop tended answer
    ⟨after.1.tended, ⟨after.1.does, after.1.others⟩, after.2⟩
  adds tended known answer :=
    have after := known.add tended answer
    ⟨after.1.tended, ⟨after.1.does, after.1.others⟩, after.2⟩
  refuses tended known answer :=
    have after := known.refuse tended answer
    ⟨after.1.tended, ⟨after.1.does, after.1.others⟩, after.2⟩
  keyless none known := by
    obtain ⟨key, found⟩ := owned_key layout known.here
    rw [layout, found] at none
    cases none
  disowns found tended known answer :=
    have after := known.disown tended (layout ▸ found) answer _
    ⟨after.1.tended, ⟨after.1.does, after.1.others⟩, after.2⟩

theorem publish_tends {r : AddressRange} (report : SyncReport) (tended : Tended p calm s)
    (minds : p.Minds i g s) : Safe ((p.care calm).terms i)
      (Safe.Outcome (fun _ => p.Minds i g) (p.Minds i g))
      (c.publish p.name (c.owned entries) (c.foreign entries) report r) s := by
  refine Reconciler.publish_safe (T := (p.care calm).terms i) (p.Minds i g) (p.Minds i g)
    (fun counts _ minds => minds.stays counts) (fun counts _ minds => minds.stays counts)
    (fun _ minds => minds)
    (fun {s x t} _ tended minds (answer : Answers p calm i s _ x t) => ?_)
    (fun {key s x t} _ _ _ tended minds (answer : Answers p calm i s _ x t) => ?_) minds tended
  · obtain ⟨deed, minds, _⟩ := drop_kept tended minds answer
    exact ⟨deed.tended, ⟨deed.does, deed.others⟩, minds⟩
  · have deed := Tended.asked tended minds.free answer rfl trivial
    have minds := minds.asked rfl answer
    exact ⟨deed.tended, ⟨deed.does, deed.others⟩, fun _ => minds, fun _ => minds⟩

theorem syncLocked_tends (layout : c.layout = p.layout) (minds : p.Minds i g s)
    (fresh : s.loaded i = false) :
    Safe ((p.care calm).terms i) (fun _ => p.Minds i g) (c.syncLocked p.name) s := by
  have start : c.layout.claimStart .range p.name = p.start := by rw [layout]; rfl
  refine Reconciler.syncLocked_safe (T := (p.care calm).terms i)
    (fun t => p.Minds i g t ∧ t.loaded i = false) (p.Minds i g)
    (fun _ t => p.Minds i g t ∧ t.loaded i = false) (fun _ _ => p.Minds i g) (tending layout calm i g)
    (fun counts _ known => ⟨known.1.stays counts, counts.loaded.trans known.2⟩)
    (fun counts _ known => ⟨known.1.stays counts, counts.loaded.trans known.2⟩)
    (fun counts _ minds => minds.stays counts) (fun counts _ minds => minds.stays counts)
    (fun {s x t} tended known (answer : Answers p calm i s _ x t) => ?_)
    (fun {entries s x t} tended known (answer : Answers p calm i s _ x t) => ?_)
    (fun {entries onFile s x t} tended known (answer : Answers p calm i s _ x t) => ?_)
    publish_tends (fun minds => minds) ⟨minds, fresh⟩
  · have deed := Tended.asked tended known.1.free answer rfl trivial
    have minds := known.1.asked rfl answer
    have still := answer.after_store.2.trans known.2
    refine ⟨deed.tended, ⟨deed.does, deed.others⟩, ?_⟩
    cases x with
    | error e => exact minds
    | ok found => exact ⟨minds, still⟩
  · obtain ⟨deed, minds, loaded⟩ := load_kept tended known.1 answer
    refine ⟨deed.tended, ⟨deed.does, deed.others⟩, ?_⟩
    cases x with
    | error e => exact minds
    | ok onFile =>
      rw [known.2] at loaded
      have read (calmly : calm) : onFile = t.kept p i.1 := by
        rw [answer.kept_load i.1]
        exact ((tended.calmly calmly).2 i.1).2 onFile answer.1
      refine ⟨minds, loaded, fun d mem => mem, fun calmly => ?_, fun calmly r => ?_⟩
      · rw [read calmly]
        exact ((deed.tended.calmly calmly).2 i.1).1
      · rw [read calmly]
  · obtain ⟨deed, minds, _⟩ := load_kept tended known.minds answer
    refine ⟨deed.tended, ⟨deed.does, deed.others⟩, ?_⟩
    cases x <;> exact minds

theorem care_kept : (p.care calm).Kept := by
  intro i call s taking tended idle
  cases call with
  | allocate retry cached pool owner =>
    have safe := allocate_hands (a := ⟨p.layout, retry, cached⟩) rfl taking owner tended idle
    refine Safe.bind safe tended fun x t _ known => ?_
    cases x with
    | error e => exact fun u counts _ => ⟨known.stays counts, trivial⟩
    | ok claim => exact fun u counts _ => ⟨known.2.stays counts, known.1.later counts.leaves⟩
  | sync identity =>
    have safe : Safe ((p.care calm).terms i) (fun _ t => Idle i t ∧ True)
        (Reconciler.sync ⟨p.layout, identity⟩ p.name) s :=
      minding_safe (fun _ _ => True) (fun _ _ => trivial) (fun _ minds fresh =>
        (syncLocked_tends rfl minds fresh).weaken fun _ _ _ minds => ⟨minds, trivial⟩) idle
    refine Safe.bind safe tended fun x t _ known => ?_
    exact fun u counts _ => ⟨known.1.stays counts, trivial⟩
  | release cached claim => exact taking.elim
  | sweep identity => exact taking.elim

end NetPool.BlockPool
