import NetPool.Proofs.Block.Calls
import NetPool.Proofs.Keys
import NetPool.Proofs.Search

/-! No two blocks claimed in a pool share an address. Whoever adds a claim holds the lock of the pool,
and what he knows of the claims can only have become fewer since he read them. -/

namespace NetPool

namespace BlockPool

variable {ν : Type} (p : BlockPool ν)

def claims (entries : List KeyValue) : List RangeClaim :=
  decodeClaims (RangeClaim.ofEntry p.layout) (entries.filter (startsWith ·.key p.start))

/-- The entry claims the range for the pool. -/
def Claims (e : KeyValue) (r : AddressRange) : Prop :=
  startsWith e.key p.start = true ∧ ∃ c, RangeClaim.ofEntry p.layout e = .ok c ∧ c.range = r

/-- The entry claims what its key is written for. -/
def Own (e : KeyValue) : Prop := ∀ r, p.Claims e r → p.layout.rangeKeyFor p.name r = some e.key

/-- Claims are apart and stand under keys of their own. -/
structure Sound (entries : List KeyValue) : Prop where
  own : ∀ e ∈ entries, p.Own e
  disjoint : ∀ e ∈ entries, ∀ f ∈ entries, ∀ q r,
    p.Claims e q → p.Claims f r → q.overlaps r = true → e = f

variable {p}

theorem Claims.rangeKey {e : KeyValue} {r : AddressRange} {a : Address} {n : Nat} (claims : p.Claims e r)
    (key : e.key = p.layout.rangeKey p.name a n) : r.start = a ∧ r.size.toNat = 2 ^ n ∧ n ≤ 32 := by
  obtain ⟨_, c, read, rfl⟩ := claims
  have parsed := ofEntry_parse read
  rw [key] at parsed
  exact (KeyLayout.parseRangeKey_rangeKey_eq_some.1 parsed).2.2

theorem Claims.eq_of_key {e : KeyValue} {q r : AddressRange} (claims : p.Claims e q)
    (key : p.layout.rangeKeyFor p.name r = some e.key) : q = r := by
  obtain ⟨n, same, size, _⟩ := KeyLayout.rangeKeyFor_eq_some.1 key
  obtain ⟨start, block, _⟩ := claims.rangeKey same
  exact AddressRange.eq_of_start_size start (block.trans size.symm)

theorem Sound.within {entries fewer : List KeyValue} (sound : p.Sound entries)
    (within : ∀ e ∈ fewer, startsWith e.key p.start = true → e ∈ entries) : p.Sound fewer where
  own e mem r claims := sound.own e (within e mem claims.1) r claims
  disjoint e he f hf q r hq hr := sound.disjoint e (within e he hq.1) f (within f hf hr.1) q r hq hr

theorem Sound.add {entries more : List KeyValue} {new : KeyValue} {r : AddressRange}
    (sound : p.Sound entries)
    (entry : ∀ e ∈ more, e = new ∨ e ∈ entries ∧ e.key ≠ new.key)
    (own : ∀ q, p.Claims new q → q = r ∧ p.layout.rangeKeyFor p.name r = some new.key)
    (free : ∀ e ∈ entries, ∀ q, p.Claims e q → e.key ≠ new.key → q.overlaps r = false) :
    p.Sound more := by
  have clear {e : KeyValue} {q q' : AddressRange} (claims : p.Claims e q) (same : p.Claims new q')
      (old : e ∈ entries ∧ e.key ≠ new.key) : q.overlaps q' = false := by
    cases (own q' same).1
    exact free e old.1 q claims old.2
  refine ⟨fun e mem q claims => ?_, fun e he f hf q q' hq hq' shared => ?_⟩
  · rcases entry e mem with rfl | old
    · obtain ⟨rfl, key⟩ := own q claims
      exact key
    · exact sound.own e old.1 q claims
  · rcases entry e he with rfl | olde <;> rcases entry f hf with rfl | oldf
    · rfl
    · rw [AddressRange.overlaps_comm, clear hq' hq oldf] at shared
      cases shared
    · rw [clear hq hq' olde] at shared
      cases shared
    · exact sound.disjoint e olde.1 f oldf.1 q q' hq hq' shared

end BlockPool

namespace Cluster

variable {ν : Type}

/-- The claims are sound, and the ranges on each file are apart. -/
structure Orderly (p : BlockPool ν) (s : Cluster ν) : Prop where
  steady : Steady p s
  apart : ∀ n, Apart (s.kept p n)
  sound : p.Sound s.store.entries

/-- There are no entries of the pool but those. -/
def Within (p : BlockPool ν) (entries : List KeyValue) (s : Cluster ν) : Prop :=
  ∀ e ∈ s.store.entries, startsWith e.key p.start = true → e ∈ entries

/-- What a caller may count on. While he holds the lock, nobody else adds a claim, or takes a range off
his file. -/
def Rely (p : BlockPool ν) (i : ν × Nat) (s t : Cluster ν) : Prop :=
  t.held i = s.held i ∧
    (s.Holds p i → t.Within p s.store.entries ∧ s.kept p i.1 <+: t.kept p i.1)

variable {p : BlockPool ν} {calm : Prop} {i j : ν × Nat} {s t u : Cluster ν}

theorem Rely.refl (i : ν × Nat) (s : Cluster ν) : Rely p i s s :=
  ⟨rfl, fun _ => ⟨fun _ mem _ => mem, List.prefix_refl _⟩⟩

theorem Rely.trans (first : Rely p i s t) (next : Rely p i t u) : Rely p i s u := by
  refine ⟨next.1.trans first.1, fun holds => ?_⟩
  obtain ⟨within, kept⟩ := first.2 holds
  have still : t.Holds p i := by
    unfold Holds
    rw [first.1]
    exact holds
  obtain ⟨more, longer⟩ := next.2 still
  exact ⟨fun e mem below => within e (more e mem below) below, kept.trans longer⟩

theorem Rely.within {entries : List KeyValue} (rely : Rely p i s t) (holds : s.Holds p i)
    (within : s.Within p entries) : t.Within p entries :=
  fun e mem below => within e ((rely.2 holds).1 e mem below) below

theorem Orderly.within (orderly : Orderly p s) (steady : Steady p t)
    (within : t.Within p s.store.entries) (apart : ∀ n, Apart (t.kept p n)) : Orderly p t :=
  ⟨steady, apart, orderly.sound.within within⟩

/-- What a request does, for the caller and for all others: the state stays orderly, and the others
get what they count on. -/
def Fair (p : BlockPool ν) (i : ν × Nat) (s t : Cluster ν) : Prop :=
  Orderly p t ∧ True ∧ ∀ j, j ≠ i → Rely p j s t

theorem Orderly.unasked (orderly : Orderly p s) : Fair p i s s :=
  ⟨orderly, trivial, fun j _ => .refl j s⟩

variable [DecidableEq ν]

/-- Nobody else holds the lock, so nobody else counts on anything. -/
theorem Rely.alone (steady : Steady p s) (holds : s.Holds p i) {r : Request} {x : r.Answer}
    (answer : Answers p calm i s r x t) (other : j ≠ i) : Rely p j s t :=
  ⟨(answer.others other).1, fun also => absurd (steady.alone j i also holds) other⟩

theorem Rely.aside {r : Request} {x : r.Answer} (answer : Answers p calm i s r x t)
    (within : t.Within p s.store.entries) (kept : s.kept p j.1 <+: t.kept p j.1) (other : j ≠ i) :
    Rely p j s t := ⟨(answer.others other).1, fun _ => ⟨within, kept⟩⟩

theorem Orderly.asked (orderly : Orderly p s) {r : StoreRequest} {x : Except StoreError r.Result}
    (answer : Answers p calm i s (.store r) x t) (adds : r.adds = false) (lone : Lone (s.held i) r) :
    Fair p i s t ∧ t.Within p s.store.entries := by
  have within : t.Within p s.store.entries := by
    obtain ⟨_, rfl⟩ := answer
    exact fun e mem _ => Store.mem_of_mem_serve adds mem
  have kept (n : ν) : t.kept p n = s.kept p n := answer.kept_store n
  refine ⟨⟨orderly.within (orderly.steady.served answer lone) within fun n => ?_, trivial,
    fun j other => .aside answer within ?_ other⟩, within⟩
  · rw [kept]
    exact orderly.apart n
  · exact (kept j.1).symm ▸ List.prefix_refl _

theorem Orderly.filed (orderly : Orderly p s) {r : CacheRequest} {x : Except Failure r.Result}
    (answer : Answers p calm i s (.cache r) x t) (apart : Apart (t.kept p i.1))
    (kept : s.Holds p i ∨ s.kept p i.1 <+: t.kept p i.1) : Fair p i s t := by
  have store : t.store = s.store := (answer.aside rfl).1
  have within : t.Within p s.store.entries := fun e mem _ => store ▸ mem
  refine ⟨orderly.within (orderly.steady.filed answer) within fun n => ?_, trivial,
    fun j other => ?_⟩
  · by_cases here : n = i.1
    · exact here ▸ apart
    · rw [answer.kept_other here]
      exact orderly.apart n
  · rcases kept with holds | kept
    · exact .alone orderly.steady holds answer other
    · refine .aside answer within ?_ other
      by_cases here : j.1 = i.1
      · exact here ▸ kept
      · exact (answer.kept_other here).symm ▸ List.prefix_refl _

theorem Orderly.loaded (orderly : Orderly p s) {pool : String} {x : Except Failure (List AddressRange)}
    (answer : Answers p calm i s (.cache (.load pool)) x t) : Fair p i s t := by
  have kept := answer.kept_load i.1
  refine orderly.filed answer ?_ (.inr ?_)
  · rw [kept]
    exact orderly.apart i.1
  · exact kept.symm ▸ List.prefix_refl _

theorem Orderly.listed (orderly : Orderly p s) {ranges : List AddressRange}
    (answer : Answers p calm i s (.cache (.load p.name)) (.ok ranges) t) :
    Apart ranges ∧ ∀ r ∈ ranges, r ∈ s.kept p i.1 := by
  rcases answer.load_eq with rfl | rfl
  · exact ⟨.nil, nofun⟩
  · exact ⟨orderly.apart i.1, fun r mem => mem⟩

theorem Orderly.appended (orderly : Orderly p s) {r : AddressRange} {x : Except Failure Unit}
    (answer : Answers p calm i s (.cache (.append p.name r)) x t) : Fair p i s t := by
  rcases answer.kept_append orderly.steady with ⟨_, free, kept⟩ | ⟨_, _, kept⟩
  · refine orderly.filed answer ?_ (.inr ?_) <;> rw [kept]
    · exact (orderly.apart i.1).append free
    · exact List.prefix_append _ _
  · refine orderly.filed answer ?_ (.inr (kept.symm ▸ List.prefix_refl _))
    rw [kept]
    exact orderly.apart i.1

theorem Orderly.dropped (orderly : Orderly p s) (holds : s.Holds p i) {r : AddressRange}
    {x : Except Failure (Option AddressRange)}
    (answer : Answers p calm i s (.cache (.delete p.name r)) x t) : Fair p i s t := by
  refine orderly.filed answer ?_ (.inl holds)
  rw [answer.kept_delete orderly.steady]
  exact (orderly.apart i.1).without r

theorem Orderly.created (orderly : Orderly p s) (holds : s.Holds p i) {key : String} {value : Bytes}
    {r : AddressRange} {x : Except StoreError Creation}
    (own : ∀ e : KeyValue, e.key = key → ∀ q, p.Claims e q →
      q = r ∧ p.layout.rangeKeyFor p.name r = some key)
    (free : ∀ e ∈ s.store.entries, ∀ q, p.Claims e q → e.key ≠ key → q.overlaps r = false)
    (answer : Answers p calm i s (.store (.create key value)) x t) : Fair p i s t := by
  have steady := orderly.steady.served answer trivial
  have others (j) (other : j ≠ i) := Rely.alone orderly.steady holds answer other
  have kept (n : ν) : Apart (t.kept p n) := by
    rw [answer.kept_store n]
    exact orderly.apart n
  refine ⟨⟨steady, kept, ?_⟩, trivial, others⟩
  obtain ⟨_, same⟩ | ⟨_, written⟩ := answer.create_cases orderly.steady
  · exact same.symm ▸ orderly.sound
  · rw [written]
    exact orderly.sound.add (fun e mem => (Store.mem_write orderly.steady.ascending).1 mem) (own _ rfl)
      free

end Cluster

namespace BlockPool

open Cluster

variable {ν : Type} [DecidableEq ν]

def order (p : BlockPool ν) : Agreement (p.stage False (·.On p.name)) where
  valid := Orderly p
  rely := Rely p
  does _ _ _ _ := True
  idle i s := s.held i = []
  fact _ _ _ := True
  refl := Rely.refl
  trans := Rely.trans
  idle_rely rely idle := rely.1.trans idle
  lasts _ known := known
  moves _ move := move.elim

variable {p : BlockPool ν} {i : ν × Nat}

/-- What runs under the lock of the pool keeps it until the end. -/
theorem locked_safe {o : Operation α} (fact : Except Failure α → Prop)
    (inside : ∀ {g s}, Orderly p s → s.Locked p i g →
      Safe (p.order.terms i) (fun x t => t.Locked p i g ∧ fact x) o s) {s : Cluster ν}
    (idle : s.held i = []) :
    Safe (p.order.terms i) (fun x t => t.held i = [] ∧ fact x) (Operation.underLock p.lock o) s := by
  refine Safe.underLock (T := p.order.terms i) (fun t => t.held i = []) (fun g t => t.Locked p i g)
    (fun g x t => t.Locked p i g ∧ fact x) (fun x t => t.held i = [] ∧ fact x)
    (fun rely idle => rely.1.trans idle) (fun rely _ known => ⟨known.1.stays rely.1, known.2⟩)
    (fun rely _ known => ⟨rely.1.trans known.1, known.2⟩)
    (fun {s x t} orderly idle (answer : Answers p False i s _ x t) => ?_) inside
    (fun {g a s x t} orderly known (answer : Answers p False i s _ x t) => ?_) idle
  · obtain ⟨g, granted, locked⟩ := orderly.steady.enters idle answer
    obtain ⟨valid, fair⟩ := (orderly.asked answer rfl trivial).1
    exact ⟨valid, fair, g, granted, locked⟩
  · obtain ⟨valid, fair⟩ := (orderly.asked answer rfl known.1.1).1
    exact ⟨valid, fair, known.1.leaves answer, known.2⟩

/-- The caller holds the lock, and has read all claims that there still are. -/
def Known (p : BlockPool ν) (i : ν × Nat) (g : Grant) (entries : List KeyValue) (s : Cluster ν) :
    Prop := s.Locked p i g ∧ s.Within p entries

omit [DecidableEq ν] in
theorem Known.stays {g : Grant} {entries : List KeyValue} {s t : Cluster ν} (rely : Rely p i s t)
    (known : p.Known i g entries s) : p.Known i g entries t :=
  ⟨known.1.stays rely.1, rely.within known.1.holds known.2⟩

theorem Known.read {calm : Prop} {g : Grant} {s t : Cluster ν} {x : Except StoreError Snapshot}
    (steady : Steady p s) (locked : s.Locked p i g)
    (answer : Answers p calm i s (.store (.range p.start)) x t) : t.store = s.store ∧
      ∃ snapshot, x = .ok snapshot ∧ p.Known i g snapshot.entries t ∧
        snapshot.entries = s.store.entries.filter (startsWith ·.key p.start) := by
  obtain ⟨same, rfl⟩ := answer.range_eq steady
  refine ⟨same, _, rfl, ⟨locked.stays (congrFun (answer.held_eq rfl) i), ?_⟩, rfl⟩
  intro e mem below
  exact List.mem_filter.2 ⟨same ▸ mem, below⟩

/-- The block that an attempt creates is clear of all claims. -/
theorem Known.creates {a : BlockAllocator} {pool : Pool} (layout : a.layout = p.layout)
    (name : pool.name = p.name) (kind : pool.kind = .range) {g : Grant} {entries : List KeyValue}
    {range : AddressRange} (found : Search.firstFit pool.bounds pool.firstCandidate pool.blockSize
      (a.listed entries) = some range) {value : Bytes} {s t : Cluster ν}
    {x : Except StoreError Creation} (orderly : Orderly p s) (known : p.Known i g entries s)
    (answer : Answers p False i s
      (.store (.create (a.layout.rangeKey pool.name range.start pool.blockExp) value)) x t) :
    Fair p i s t := by
  have block : pool.blockSize = 1 <<< UInt64.ofNat pool.blockExp := by rw [Pool.blockSize, kind]
  obtain ⟨size, _, _, clear⟩ := Search.firstFit_sound found (block ▸ one_shiftLeft_pos _)
  rw [layout, name] at answer
  refine orderly.created (r := range) known.1.holds (fun e key q claims => ?_)
    (fun e mem q claims _ => ?_) answer
  · obtain ⟨start, two, le⟩ := claims.rangeKey key
    rw [block, one_shiftLeft_toNat le] at size
    refine ⟨AddressRange.eq_of_start_size start (two.trans size.symm), ?_⟩
    exact KeyLayout.rangeKeyFor_eq_some.2 ⟨pool.blockExp, rfl, size, le⟩
  · obtain ⟨below, c, read, rfl⟩ := claims
    have listed : c.range ∈ a.listed entries := by
      refine List.mem_map.2 ⟨c, List.mem_mergeSort.2 (mem_decodeClaims.2 ⟨e, ?_, layout ▸ read⟩), rfl⟩
      exact known.2 e mem below
    rw [AddressRange.overlaps_comm]
    exact clear _ listed

theorem claimFirstFit_safe {a : BlockAllocator} {pool : Pool} (layout : a.layout = p.layout)
    (name : pool.name = p.name) (kind : pool.kind = .range) (owner : String) {g : Grant}
    {s : Cluster ν} (locked : s.Locked p i g) : Safe (p.order.terms i)
      (fun x t => t.Locked p i g ∧ ∀ c, x = .ok c → c.pool = p.name) (a.claimFirstFit pool owner) s := by
  have start : a.layout.claimStart .range pool.name = p.start := by rw [layout, name]; rfl
  rw [BlockAllocator.claimFirstFit_eq, start]
  intro t rely (orderly : Orderly p t) x u (answer : Answers p False i t _ x u)
  obtain ⟨fair, _⟩ := orderly.asked answer rfl trivial
  obtain ⟨_, snapshot, rfl, known, _⟩ := Known.read orderly.steady (locked.stays rely.1) answer
  refine ⟨fair.1, fair.2, ?_⟩
  change Safe (p.order.terms i) _ (a.place pool owner (a.listed snapshot.entries)) u
  refine BlockAllocator.place_safe (p.Known i g snapshot.entries) (fun rely _ known => known.stays rely)
    (fun rely _ known => ⟨known.1.stays rely.1, known.2⟩) (fun known => ⟨known.1, nofun⟩)
    (fun {range s x t} found orderly known (answer : Answers p False i s _ x t) => ?_) known
  have fair := Known.creates layout name kind found orderly known answer
  have locked := known.1.stays (congrFun (answer.held_eq rfl) i)
  refine ⟨fair.1, fair.2, fun _ => ⟨locked, nofun⟩, fun _ _ => ⟨locked, fun c same => ?_⟩⟩
  cases same
  exact name

theorem allocate_safe {a : BlockAllocator} {pool : Pool} (layout : a.layout = p.layout)
    (name : pool.name = p.name) (owner : String) {s : Cluster ν} (orderly : Orderly p s)
    (idle : s.held i = []) :
    Safe (p.order.terms i) (fun _ t => t.held i = []) (a.allocate pool owner) s := by
  have mutex : a.layout.mutex .range pool.name = p.lock := by rw [layout, name]; rfl
  refine (BlockAllocator.allocate_safe (T := p.order.terms i) (fun t => t.held i = [])
    (fun c t => c.pool = p.name ∧ t.held i = []) (fun c t => t.held i = [])
    (fun rely idle => rely.1.trans idle) (fun rely _ known => ⟨known.1, rely.1.trans known.2⟩)
    (fun rely _ idle => rely.1.trans idle) (fun {s t ms x} orderly idle answer => ?_)
    (fun {s} kind orderly idle => ?_) (fun _ known => known.2)
    (fun {c s x t} orderly known answer => ?_) orderly idle).weaken fun x t _ reached => by
      cases x <;> exact reached
  · cases answer
    exact ⟨orderly, orderly.unasked.2, idle⟩
  · rw [mutex]
    refine (locked_safe (fun x => ∀ c, x = .ok c → c.pool = p.name)
      (fun _ locked => claimFirstFit_safe layout name kind owner locked) idle).weaken fun x t _ known => ?_
    cases x with
    | ok c => exact ⟨known.2 c rfl, known.1⟩
    | error e => exact known.1
  · obtain ⟨named, idle⟩ := known
    have answer : Answers p False i s (.cache (.append c.pool c.range)) x t := answer
    rw [named] at answer ⊢
    have fair := Orderly.appended orderly answer
    exact ⟨fair.1, fair.2, (congrFun (answer.held_eq rfl) i).trans idle⟩

end BlockPool

end NetPool
