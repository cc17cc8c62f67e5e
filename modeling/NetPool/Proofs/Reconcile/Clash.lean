import NetPool.Proofs.Reconcile.Adrift

/-! What becomes of the claims of a pool in a pass in which requests fail. A claim that the file refuses
is deleted, so that nothing else need keep clear of it; if that fails too, a range on file that was to
make way for it may be published beside it. No other two claims come to share an address. -/

namespace NetPool

/-- Two claims of the node. The first one was there before the pass, the file refused it, and its
deletion failed. The other one was on file, its removal failed, and it was published. -/
structure Reconciler.Clash (c : Reconciler) (cache : RangeCache) (pool : String)
    (before after : FailingDesk) (claim other : RangeClaim) : Prop where
  mine : claim.owner = c.identity
  there : claim ∈ c.claims pool before.store
  refused : .cache (.append pool claim.range) ∈ after.failed
  lost : ∃ key, c.layout.rangeKeyFor pool claim.range = some key ∧ .store (.delete key) ∈ after.failed
  ours : other.owner = c.identity
  fresh : other ∉ c.claims pool before.store
  onFile : other.range ∈ cache.kept before.files pool
  stuck : .cache (.delete pool other.range) ∈ after.failed

theorem Reconciler.Clash.stays {c : Reconciler} {cache : RangeCache} {pool : String}
    {before s t : FailingDesk} {a b : RangeClaim} (clash : c.Clash cache pool before s a b)
    (more : s.failed ⊆ t.failed) : c.Clash cache pool before t a b where
  mine := clash.mine
  there := clash.there
  refused := more clash.refused
  lost := clash.lost.imp fun _ lost => ⟨lost.1, more lost.2⟩
  ours := clash.ours
  fresh := clash.fresh
  onFile := clash.onFile
  stuck := more clash.stuck

namespace FailingDesk

open Reconciler

variable {c : Reconciler} {cache : RangeCache} {pool : String} {before s t : FailingDesk}
  {entries : List KeyValue} {onFile due later : List AddressRange} {claim : RangeClaim}
  {rest : List RangeClaim} {r : AddressRange}

/-- No two claims share an address but for a clash. -/
def Explained (c : Reconciler) (cache : RangeCache) (pool : String) (before s : FailingDesk) : Prop :=
  ∀ a ∈ c.claims pool s.store, ∀ b ∈ c.claims pool s.store, a.range.overlaps b.range = true →
    a = b ∨ c.Clash cache pool before s a b ∨ c.Clash cache pool before s b a

theorem Explained.stays (explained : Explained c cache pool before s)
    (fewer : ∀ e ∈ t.store.entries, e ∈ s.store.entries) (more : s.failed ⊆ t.failed) :
    Explained c cache pool before t := by
  intro a ha b hb shared
  rcases explained a (claims_fewer fewer ha) b (claims_fewer fewer hb) shared with same | clash | clash
  · exact .inl same
  · exact .inr (.inl (clash.stays more))
  · exact .inr (.inr (clash.stays more))

/-- How a claim stands while what is on file is published. -/
inductive Standing (c : Reconciler) (cache : RangeCache) (pool : String) (entries : List KeyValue)
    (due : List AddressRange) (s : FailingDesk) (claim : RangeClaim) : Prop
  | foreign (mem : claim ∈ c.foreign entries)
  | onFile (here : claim.range ∈ cache.kept s.files pool)
      (own : claim.range ∈ due → ∃ other ∈ c.owned entries, other.range = claim.range)
  | adrift (owned : claim ∈ c.owned entries) (adrift : Adrift c cache pool claim s)

/-- While what is on file is published, with so many ranges to come. -/
structure Listed (c : Reconciler) (cache : RangeCache) (pool : String) (before : FailingDesk)
    (entries : List KeyValue) (due : List AddressRange) (s : FailingDesk) : Prop where
  begun : Begun c cache pool before entries s
  apart : Apart due
  there : ∀ r ∈ due, r ∈ cache.kept s.files pool
  standing : ∀ claim ∈ c.claims pool s.store, Standing c cache pool entries due s claim
  explained : Explained c cache pool before s

theorem Standing.stays (standing : Standing c cache pool entries due s claim) (more : s.failed ⊆ t.failed)
    (keeps : (claim.range ∈ due → ∃ other ∈ c.owned entries, other.range = claim.range) →
      claim.range ∈ cache.kept s.files pool → claim.range ∈ cache.kept t.files pool)
    (fewer : ∀ q ∈ cache.kept t.files pool, q ∈ cache.kept s.files pool) (less : later ⊆ due) :
    Standing c cache pool entries later t claim := by
  cases standing with
  | foreign mem => exact .foreign mem
  | onFile here own => exact .onFile (keeps own here) fun mem => own (less mem)
  | adrift owned adrift => exact .adrift owned (adrift.stays more fun q mem _ => fewer q mem)

theorem Listed.stays (listed : Listed c cache pool before entries due s)
    (fewer : ∀ e ∈ t.store.entries, e ∈ s.store.entries) (files : t.files = s.files)
    (more : s.failed ⊆ t.failed) (less : later.Sublist due) :
    Listed c cache pool before entries later t where
  begun := listed.begun.fewer fun _ mem => files ▸ mem
  apart := List.Pairwise.sublist less listed.apart
  there q mem := files ▸ listed.there q (less.subset mem)
  standing d mem := (listed.standing d (claims_fewer fewer mem)).stays more (fun _ mem => files ▸ mem)
    (fun _ mem => files ▸ mem) less.subset
  explained := listed.explained.stays fewer more

theorem Listed.drop (listed : Listed c cache pool before entries (r :: due) s)
    (absent : ∀ d ∈ c.owned entries, d.range ≠ r) (removed : Removed c cache pool r s t) :
    Listed c cache pool before entries due t := by
  have fewer (e) (mem : e ∈ t.store.entries) : e ∈ s.store.entries := removed.store ▸ mem
  constructor
  · exact listed.begun.fewer removed.fewer
  · exact listed.apart.tail
  · intro q mem
    apply removed.others q (listed.there q (List.mem_cons_of_mem r mem))
    rintro rfl
    exact listed.apart.fresh mem
  · intro d mem
    apply (listed.standing d (claims_fewer fewer mem)).stays removed.more _ removed.fewer
      (List.subset_cons_self r due)
    intro own here
    apply removed.others _ here
    intro same
    obtain ⟨other, owned, range⟩ := own (same ▸ List.mem_cons_self)
    exact absent other owned (range.trans same)
  · exact listed.explained.stays fewer removed.more

/-- What is published shares an address with no claim but one that is adrift. -/
theorem Listed.meets (sane : Sane c cache pool s)
    (listed : Listed c cache pool before entries (r :: due) s)
    (absent : ∀ d ∈ c.owned entries, d.range ≠ r)
    (apart : ∀ d ∈ c.foreign entries, d.range.overlaps r = false) {d : RangeClaim}
    (mem : d ∈ c.claims pool s.store) (shared : d.range.overlaps r = true) :
    c.Clash cache pool before s d ⟨pool, r, c.identity⟩ := by
  have here := listed.there r List.mem_cons_self
  cases listed.standing d mem with
  | foreign other =>
    rw [apart d other] at shared
    cases shared
  | onFile there own =>
    -- What is on file is apart, so this would be the range itself, which is then an owned one.
    have same := sane.apart.eq there here shared
    obtain ⟨other, owned, range⟩ := own (same ▸ List.mem_cons_self)
    exact absurd (range.trans same) (absent other owned)
  | adrift owned adrift =>
    obtain ⟨old, mine⟩ := listed.begun.mem_owned.1 owned
    constructor
    · exact mine
    · exact old
    · exact adrift.refused
    · exact adrift.lost
    · rfl
    · intro known
      exact absent _ (listed.begun.mem_owned.2 ⟨known, rfl⟩) rfl
    · apply (listed.begun.origin r here).resolve_right
      rintro ⟨other, owned, range⟩
      exact absent other owned range
    · rw [AddressRange.overlaps_comm] at shared
      exact adrift.stuck r here shared

theorem Listed.write (sane : Sane c cache pool s)
    (listed : Listed c cache pool before entries (r :: due) s)
    (absent : ∀ d ∈ c.owned entries, d.range ≠ r)
    (apart : ∀ d ∈ c.foreign entries, d.range.overlaps r = false) {key : String}
    (slot : c.layout.rangeKeyFor pool r = some key) (written : t.store = s.store.write key c.ours)
    (files : t.files = s.files) (more : s.failed ⊆ t.failed) :
    Listed c cache pool before entries due t := by
  have here := listed.there r List.mem_cons_self
  have claims {d : RangeClaim} (mem : d ∈ c.claims pool t.store) :
      d ∈ c.claims pool s.store ∨ d = ⟨pool, r, c.identity⟩ :=
    claims_write sane.ascending slot (written ▸ mem)
  have meets {d : RangeClaim} (mem : d ∈ c.claims pool s.store) (shared : d.range.overlaps r = true) :=
    (listed.meets sane absent apart mem shared).stays more
  constructor
  · exact listed.begun.fewer fun q mem => files ▸ mem
  · exact listed.apart.tail
  · exact fun q mem => files ▸ listed.there q (List.mem_cons_of_mem r mem)
  · intro d mem
    rcases claims mem with old | rfl
    · exact (listed.standing d old).stays more (fun _ mem => files ▸ mem) (fun _ mem => files ▸ mem)
        (List.subset_cons_self r due)
    · exact .onFile (files ▸ here) fun mem => absurd mem listed.apart.fresh
  · intro a ha b hb shared
    rcases claims ha with oldA | rfl <;> rcases claims hb with oldB | rfl
    · rcases listed.explained a oldA b oldB shared with same | clash | clash
      · exact .inl same
      · exact .inr (.inl (clash.stays more))
      · exact .inr (.inr (clash.stays more))
    · exact .inr (.inl (meets oldA shared))
    · rw [AddressRange.overlaps_comm] at shared
      exact .inr (.inr (meets oldB shared))
    · exact .inl rfl

theorem publish_safe (report : SyncReport) (sane : Sane c cache pool s)
    (listed : Listed c cache pool before entries (r :: due) s) :
    Safe (terms c cache pool) (Safe.Outcome (fun _ => Listed c cache pool before entries due)
        (Listed c cache pool before entries due))
      (c.publish pool (c.owned entries) (c.foreign entries) report r) s := by
  refine Reconciler.publish_safe (T := terms c cache pool) (Listed c cache pool before entries (r :: due))
    (Listed c cache pool before entries due) (fun rely _ listed => rely ▸ listed)
    (fun rely _ listed => rely ▸ listed) (fun {s} _ listed => ?_)
    (fun {s x t} absent sane listed (answer : Answers cache pool s _ x t) => ?_)
    (fun {key s x t} absent apart slot sane listed (answer : Answers cache pool s _ x t) => ?_)
    listed sane
  · exact listed.stays (fun _ mem => mem) rfl (fun _ mem => mem) (List.sublist_cons_self r due)
  · have removed := Sane.removed sane (listed.there r List.mem_cons_self) answer
    exact ⟨removed.sane, trivial, listed.drop absent removed⟩
  · rcases answer.created with same | ⟨free, written⟩
    · have fewer (e) (mem : e ∈ t.store.entries) : e ∈ s.store.entries := same ▸ mem
      have files : t.files = s.files := answer.2.1
      refine ⟨Sane.stored sane answer (sane.canonical.fewer fewer), trivial, fun _ => ?_, fun _ => ?_⟩
      · exact listed.stays fewer files answer.more (List.Sublist.refl _)
      · exact listed.stays fewer files answer.more (List.sublist_cons_self r due)
    · have canonical : c.Canonical pool t.store :=
        written ▸ Canonical.write sane.ascending sane.canonical slot _
      refine ⟨Sane.stored sane answer canonical, trivial, fun taken => absurd taken free, fun _ => ?_⟩
      exact listed.write sane absent apart slot written answer.2.1 answer.more

/-- Nothing has been written to the store or the files. -/
structure Untouched (before s : FailingDesk) : Prop where
  entries : s.store.entries = before.store.entries
  files : s.files = before.files

theorem Untouched.explained (untouched : Untouched before s)
    (disjoint : Apart ((c.claims pool before.store).map (·.range))) :
    Explained c cache pool before s := by
  have fewer (e) (mem : e ∈ s.store.entries) : e ∈ before.store.entries := untouched.entries ▸ mem
  intro a ha b hb shared
  exact .inl (claim_eq disjoint (claims_fewer fewer ha) (claims_fewer fewer hb) shared)

theorem Untouched.begun (untouched : Untouched before s) (read : entries = c.entriesOf pool before.store)
    (disjoint : Apart ((c.claims pool before.store).map (·.range))) :
    Begun c cache pool before entries s :=
  ⟨read, disjoint, fun _ mem => .inl (untouched.files ▸ mem)⟩

/-- The file has been loaded, and all owned claims are yet to be put on it. -/
theorem Untouched.adopted (untouched : Untouched before s) (read : entries = c.entriesOf pool before.store)
    (disjoint : Apart ((c.claims pool before.store).map (·.range))) (sane : Sane c cache pool t)
    (store : t.store = s.store) (kept : cache.kept t.files pool = cache.kept s.files pool) :
    Adopted c cache pool before entries (cache.kept s.files pool) (c.owned entries) t := by
  constructor
  · exact (untouched.begun read disjoint).fewer fun q mem => kept ▸ mem
  · intro e mem
    rw [store, untouched.entries] at mem
    exact mem
  · exact kept ▸ sane.apart
  · exact fun d mem => mem
  · exact fun q mem => kept ▸ mem
  · exact fun q mem => .inl (kept ▸ mem)
  · exact fun d mem => .inl mem

theorem Adopted.explained (adopted : Adopted c cache pool before entries onFile rest s) :
    Explained c cache pool before s := by
  intro a ha b hb shared
  have old {d : RangeClaim} (mem : d ∈ c.claims pool s.store) := claims_fewer adopted.fewer mem
  exact .inl (claim_eq adopted.begun.disjoint (old ha) (old hb) shared)

/-- All that is on file is to be published. Of the claims each is foreign, on file, or adrift. -/
theorem Adopted.list (adopted : Adopted c cache pool before entries onFile [] s)
    (store : t.store = s.store) (more : s.failed ⊆ t.failed) (sane : Sane c cache pool t)
    (kept : cache.kept t.files pool = cache.kept s.files pool) :
    Listed c cache pool before entries (cache.kept t.files pool) t := by
  constructor
  · exact adopted.begun.fewer fun q mem => kept ▸ mem
  · exact sane.apart
  · exact fun q mem => mem
  · intro d mem
    have now : d ∈ c.claims pool s.store := store ▸ mem
    have old : d ∈ c.claims pool before.store := claims_fewer adopted.fewer now
    by_cases mine : d.owner = c.identity
    · have owned := adopted.begun.mem_owned.2 ⟨old, mine⟩
      rcases adopted.placed d owned with due | here | gone | adrift
      · cases due
      · exact .onFile (kept ▸ here) fun _ => ⟨d, owned, rfl⟩
      · exact absurd now gone
      · exact .adrift owned (adrift.stays more fun q mem _ => kept ▸ mem)
    · apply Standing.foreign
      rw [mem_foreign, adopted.begun.read]
      exact ⟨old, mine⟩
  · exact adopted.explained.stays (fun e mem => store ▸ mem) more

theorem syncLocked_safe (disjoint : Apart ((c.claims pool before.store).map (·.range)))
    (start : Untouched before s) : Safe (terms c cache pool) (fun _ => Explained c cache pool before)
      (c.syncLocked pool) s := by
  refine Reconciler.syncLocked_safe (T := terms c cache pool) (Untouched before)
    (Explained c cache pool before)
    (fun entries s => entries = c.entriesOf pool before.store ∧ Untouched before s)
    (Listed c cache pool before) (adopting c cache pool before) (fun rely _ known => rely ▸ known)
    (fun rely _ known => rely ▸ known) (fun rely _ known => rely ▸ known)
    (fun rely _ known => rely ▸ known)
    (fun {s x t} sane untouched (answer : Answers cache pool s _ x t) => ?_)
    (fun {entries s x t} sane found (answer : Answers cache pool s _ x t) => ?_)
    (fun {entries onFile s x t} sane adopted (answer : Answers cache pool s _ x t) => ?_)
    publish_safe (fun listed => listed.explained) start
  · have after : Untouched before t :=
      ⟨(answer.same rfl rfl).trans untouched.entries, answer.2.1.trans untouched.files⟩
    refine ⟨Sane.asked sane answer rfl, trivial, ?_⟩
    cases x with
    | error e => exact after.explained disjoint
    | ok found =>
      refine ⟨?_, after⟩
      rw [(answer.entries sane.ascending).2, untouched.entries]
      rfl
  · obtain ⟨sane, kept, loads⟩ := Sane.loaded sane answer
    obtain ⟨read, untouched⟩ := found
    have store : t.store = s.store := answer.2.1
    refine ⟨sane, trivial, ?_⟩
    cases x with
    | error e => exact (untouched.explained disjoint).stays (fun e mem => store ▸ mem) answer.more
    | ok onFile =>
      cases loads onFile rfl
      exact untouched.adopted read disjoint sane store kept
  · obtain ⟨sane, kept, loads⟩ := Sane.loaded sane answer
    have store : t.store = s.store := answer.2.1
    refine ⟨sane, trivial, ?_⟩
    cases x with
    | error e => exact (Adopted.explained adopted).stays (fun e mem => store ▸ mem) answer.more
    | ok ranges =>
      cases (loads ranges rfl).trans kept.symm
      exact Adopted.list adopted store answer.more sane kept

theorem sync_safe (disjoint : Apart ((c.claims pool before.store).map (·.range))) :
    Safe (terms c cache pool) (fun _ => Explained c cache pool before) (c.sync pool).outcome before := by
  rw [Operation.outcome, Reconciler.sync, Operation.underLock_eq]
  intro s rely sane x t (answer : Answers cache pool s _ x t)
  cases rely
  have untouched : Untouched before t := ⟨answer.same rfl rfl, answer.2.1⟩
  have sane := Sane.asked sane answer rfl
  refine ⟨sane, trivial, ?_⟩
  cases x with
  | error e => exact fun u rely _ => rely ▸ untouched.explained disjoint
  | ok g =>
    refine Safe.bind (syncLocked_safe disjoint untouched) sane fun x u sane explained => ?_
    intro v rely sane y w (answer : Answers cache pool v _ y w)
    cases rely
    exact ⟨Sane.asked sane answer rfl, trivial,
      fun _ rely _ => rely ▸ explained.stays (answer.fewer rfl) answer.more⟩

/-- Explained claims are apart if and only if none of them clash. -/
theorem Explained.apart_iff (explained : Explained c cache pool before s) (sane : Sane c cache pool s) :
    Apart ((c.claims pool s.store).map (·.range)) ↔
      ∀ a ∈ c.claims pool s.store, ∀ b ∈ c.claims pool s.store,
        c.Clash cache pool before s a b → a.range.overlaps b.range = false := by
  constructor
  · intro apart a ha b hb clash
    apply Bool.eq_false_iff.2
    intro shared
    cases claim_eq apart ha hb shared
    exact clash.fresh clash.there
  · intro clear
    apply (apart_decoded (sane.ascending.filter _)).2
    intro e he f hf other a b readA readB
    apply Bool.eq_false_iff.2
    intro shared
    have ha : a ∈ c.claims pool s.store := mem_decodeClaims.2 ⟨e, he, readA⟩
    have hb : b ∈ c.claims pool s.store := mem_decodeClaims.2 ⟨f, hf, readB⟩
    rcases explained a ha b hb shared with rfl | clash | clash
    · -- One claim read from two entries would stand at one key.
      have key := (sane.canonical e he a readA).symm.trans (sane.canonical f hf a readB)
      have same := sane.ascending.eq_of_key (List.mem_filter.1 he).1 (List.mem_filter.1 hf).1
        (Option.some.inj key)
      exact other same
    · rw [clear a ha b hb clash] at shared
      cases shared
    · rw [AddressRange.overlaps_comm, clear b hb a ha clash] at shared
      cases shared

end FailingDesk

namespace Reconciler

variable {c : Reconciler} {cache : RangeCache} {pool : String} {d : Desk}

/-- A pass from claims that are apart under keys of their own, with ranges on file that are apart,
whichever of its requests fail and however it ends. Claims that then share an address clash, so that
they are apart unless there is such a pair. -/
theorem sync_overlaps_are_clashes {x : Except Failure SyncReport} {after : FailingDesk}
    (sane : FailingDesk.Sane c cache pool ⟨d, []⟩)
    (disjoint : Apart ((c.claims pool d.store).map (·.range)))
    (ends : (c.sync pool).outcome.Ends (FailingDesk.Answers cache pool) ⟨d, []⟩ x after) :
    (∀ a ∈ c.claims pool after.store, ∀ b ∈ c.claims pool after.store,
      a.range.overlaps b.range = true → a = b ∨ c.Clash cache pool ⟨d, []⟩ after a b ∨
        c.Clash cache pool ⟨d, []⟩ after b a) ∧
    (Apart ((c.claims pool after.store).map (·.range)) ↔
      ∀ a ∈ c.claims pool after.store, ∀ b ∈ c.claims pool after.store,
        c.Clash cache pool ⟨d, []⟩ after a b → a.range.overlaps b.range = false) := by
  have safe : Safe (FailingDesk.terms c cache pool)
      (fun _ => FailingDesk.Explained c cache pool ⟨d, []⟩) (c.sync pool).outcome ⟨d, []⟩ :=
    FailingDesk.sync_safe disjoint
  obtain ⟨kept, explained⟩ := safe.ends sane ends
  exact ⟨explained, explained.apart_iff kept⟩

/-! A block of the node that is not on file, where a part of it is. -/

def block : RangeClaim := ⟨"blue", tenth 0x0 0xF, "me"⟩

def part : RangeClaim := ⟨"blue", tenth 0x0 0x7, "me"⟩

def cramped : Desk where
  store := (Store.empty 100).write (me.layout.rangeKey "blue" 0x0A000000 4) me.ours
  files := shelf [tenth 0x0 0x7]

theorem claims_cramped : me.claims "blue" cramped.store = [block] := by decide +kernel

theorem cramped_sane : FailingDesk.Sane me nook "blue" ⟨cramped, []⟩ := by
  have filed : nook.Filed cramped.files "blue" [tenth 0x0 0x7] := shelf_filed _
  have slot : me.layout.rangeKeyFor "blue" (tenth 0x0 0xF) =
      some (me.layout.rangeKey "blue" 0x0A000000 4) := by decide +kernel
  have asc : Store.Ascending (Store.empty 100).entries := .nil
  constructor
  · exact Store.write_ascending asc _ _
  · exact Canonical.write asc (fun e mem => by cases mem) slot _
  · exact filed.rooted
  · exact filed.readable
  · rw [filed.kept]
    exact List.pairwise_singleton _ _

theorem cramped_apart : Apart ((me.claims "blue" cramped.store).map (·.range)) := by
  rw [claims_cramped]
  exact List.pairwise_singleton _ _

/-- Every write to the files, and every deletion in the store if `deaf`. -/
def failures (deaf : Bool) : Request → Bool
  | .cache (.append _ _) => true
  | .cache (.delete _ _) => true
  | .store (.delete _) => deaf
  | _ => false

def crampedPass (deaf : Bool) : Option (Except Failure SyncReport × FailingDesk) :=
  (me.sync "blue").outcome.run (FailingDesk.reply nook (failures deaf)) ⟨cramped, []⟩

theorem crampedPass_ends {deaf : Bool} {x : Except Failure SyncReport} {after : FailingDesk}
    (run : crampedPass deaf = some (x, after)) :
    (me.sync "blue").outcome.Ends (FailingDesk.Answers nook "blue") ⟨cramped, []⟩ x after :=
  Program.run_ends FailingDesk.reply_answers run

/-- Where the block can be deleted, the part is published in its place. Where it cannot, the two clash. -/
theorem part_instead_of_block : FailingDesk.Sane me nook "blue" ⟨cramped, []⟩ ∧
    Apart ((me.claims "blue" cramped.store).map (·.range)) ∧
    (∃ x after, (me.sync "blue").outcome.Ends (FailingDesk.Answers nook "blue") ⟨cramped, []⟩ x after ∧
      me.claims "blue" after.store = [part] ∧ Apart ((me.claims "blue" after.store).map (·.range))) ∧
    ∃ x after, (me.sync "blue").outcome.Ends (FailingDesk.Answers nook "blue") ⟨cramped, []⟩ x after ∧
      me.Clash nook "blue" ⟨cramped, []⟩ after block part := by
  refine ⟨cramped_sane, cramped_apart, ?_, ?_⟩
  · have run : ((crampedPass false).map fun x => me.claims "blue" x.2.store) = some [part] := by
      decide +kernel
    obtain ⟨⟨x, after⟩, run, claims⟩ := Option.map_eq_some_iff.1 run
    have ends := crampedPass_ends run
    refine ⟨x, after, ends, claims, ?_⟩
    apply (sync_overlaps_are_clashes cramped_sane cramped_apart ends).2.2
    intro a ha b hb clash
    rw [claims] at ha hb
    cases List.mem_singleton.1 ha
    cases List.mem_singleton.1 hb
    exact absurd clash.there clash.fresh
  · have run : ((crampedPass true).map fun x => me.claims "blue" x.2.store) = some [part, block] := by
      decide +kernel
    obtain ⟨⟨x, after⟩, run, claims⟩ := Option.map_eq_some_iff.1 run
    have ends := crampedPass_ends run
    refine ⟨x, after, ends, ?_⟩
    have ha : block ∈ me.claims "blue" after.store := by simp [claims]
    have hb : part ∈ me.claims "blue" after.store := by simp [claims]
    rcases (sync_overlaps_are_clashes cramped_sane cramped_apart ends).1 block ha part hb (by decide)
      with same | clash | clash
    · exact absurd same (by decide)
    · exact clash
    · have there := clash.there
      rw [claims_cramped] at there
      exact absurd (List.mem_singleton.1 there) (by decide)

/-- A pass may come to an end without an error and leave a claim of the node beside a part of it. -/
theorem part_beside_block : FailingDesk.Sane me nook "blue" ⟨cramped, []⟩ ∧
    Apart ((me.claims "blue" cramped.store).map (·.range)) ∧
    ∃ report after, (me.sync "blue").outcome.Ends (FailingDesk.Answers nook "blue") ⟨cramped, []⟩
        (.ok report) after ∧
      me.claims "blue" after.store = [part, block] ∧
      ¬ Apart ((me.claims "blue" after.store).map (·.range)) := by
  refine ⟨cramped_sane, cramped_apart, ?_⟩
  have run : ((crampedPass true).map fun x => (x.1, me.claims "blue" x.2.store)) =
      some (.ok { pool := "blue", published := 1 }, [part, block]) := by decide +kernel
  obtain ⟨⟨x, after⟩, run, same⟩ := Option.map_eq_some_iff.1 run
  simp only [Prod.mk.injEq] at same
  obtain ⟨rfl, claims⟩ := same
  refine ⟨_, after, crampedPass_ends run, claims, ?_⟩
  rw [claims]
  unfold Apart
  decide

end Reconciler

end NetPool
