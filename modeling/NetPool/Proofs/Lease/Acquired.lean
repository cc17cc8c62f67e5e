import NetPool.Proofs.Placed
import NetPool.Proofs.Running

/-! One call for a lease from beginning to end, where nobody else is at the store and the clock stands.
Each attempt deletes the leases that no longer count, so all but the first find the same entries; what
the call comes to is told from these. -/

namespace NetPool

namespace LeaseAllocator

/-- A lease that has ended, or one of the owner that no longer fits the pool. -/
def lapsed (a : LeaseAllocator) (p : Pool) (owner : String) (now : UInt64) (e : KeyValue) : Bool :=
  match SubnetClaim.ofEntry a.layout e with
  | .error _ => false
  | .ok c => c.isExpired now || (c.owner = owner && !p.isCompatible c.subnet)

def below (a : LeaseAllocator) (p : Pool) (e : KeyValue) : Bool :=
  startsWith e.key (a.layout.claimStart .subnet p.name)

/-- The entries without the leases of the pool that have lapsed. -/
def swept (a : LeaseAllocator) (p : Pool) (owner : String) (now : UInt64) (entries : List KeyValue) :
    List KeyValue :=
  entries.filter fun e => !(a.below p e && a.lapsed p owner now e)

/-- The leases of the pool that can be read, in the order of their keys. -/
def readable (a : LeaseAllocator) (p : Pool) (entries : List KeyValue) : List SubnetClaim :=
  decodeClaims (SubnetClaim.ofEntry a.layout) (entries.filter (a.below p))

variable {a : LeaseAllocator} {p : Pool} {owner : String} {now : UInt64} {s t u : Store}
  {e : KeyValue} {entries left : List KeyValue} {previous : Option Subnet} {c : SubnetClaim}

theorem mem_swept : e ∈ a.swept p owner now entries ↔
    e ∈ entries ∧ ¬ (a.below p e = true ∧ a.lapsed p owner now e = true) := by
  simp [swept, imp_iff_not_or]

theorem swept_swept : a.swept p owner now (a.swept p owner now entries) = a.swept p owner now entries := by
  simp [swept, List.filter_filter]

theorem mem_readable : c ∈ a.readable p entries ↔
    ∃ e ∈ entries, a.below p e = true ∧ SubnetClaim.ofEntry a.layout e = .ok c := by
  simp only [readable, mem_decodeClaims, List.mem_filter, and_assoc]

theorem not_lapsed (read : SubnetClaim.ofEntry a.layout e = .ok c) : ¬ a.lapsed p owner now e = true ↔
    ¬ c.isExpired now = true ∧ ¬ (c.owner = owner ∧ ¬ p.isCompatible c.subnet = true) := by
  rw [lapsed, read]
  simp

/-! The pass through the leases. -/

/-- An entry that has lapsed is deleted, and the pass goes on. -/
theorem live_lapsed (serving : s.Serving) (here : e ∈ s.entries) (out : a.lapsed p owner now e = true)
    {x : Except Failure (List SubnetClaim)}
    (ends : Program.Ends (Store.Attends now) (a.live p owner now (e :: entries)) s x t) :
    Program.Ends (Store.Attends now) (a.live p owner now entries) (s.erase e) x t := by
  have deleted : s.serve (.compareAndDelete e.key e.modified) = (some (.ok true), s.erase e) := by
    have found : s.find? e.key = some e := (Store.find?_eq_some_iff serving.ascending).2 ⟨here, rfl⟩
    simp [Store.serve, Store.compareAndDelete, Store.reachable_eq serving.available, found]
  cases read : SubnetClaim.ofEntry a.layout e with
  | error f =>
    rw [lapsed, read] at out
    cases out
  | ok c =>
    by_cases expired : c.isExpired now = true
    · rw [live_expired a read expired] at ends
      obtain ⟨z, w, ends, last⟩ := Program.ends_bind (Store.ends_store deleted ends)
      cases z with
      | error f =>
        obtain ⟨rfl, rfl⟩ := Program.ends_pure last
        exact ends
      | ok others =>
        obtain ⟨rfl, rfl⟩ := Program.ends_pure last
        exact ends
    · have unfit : c.owner = owner ∧ ¬ p.isCompatible c.subnet = true := by
        by_contra fits
        exact (not_lapsed read).2 ⟨expired, fits⟩ out
      rw [live_incompatible a read expired unfit] at ends
      exact Store.ends_store deleted ends

theorem live_ends (serving : s.Serving) (distinct : entries.Pairwise (·.key ≠ ·.key))
    (known : ∀ e ∈ entries, e ∈ s.entries) {x : Except Failure (List SubnetClaim)}
    (ends : Program.Ends (Store.Attends now) (a.live p owner now entries) s x t) :
    x = .ok (decodeClaims (SubnetClaim.ofEntry a.layout)
        (entries.filter fun e => !a.lapsed p owner now e)) ∧ t.Serving ∧
      t.entries = s.entries.filter fun f => !(decide (f ∈ entries) && a.lapsed p owner now f) := by
  induction entries generalizing s t x with
  | nil =>
    obtain ⟨rfl, rfl⟩ := Program.ends_pure ends
    exact ⟨rfl, serving, by simp⟩
  | cons e rest ih =>
    obtain ⟨first, others⟩ := List.pairwise_cons.1 distinct
    have here := known e List.mem_cons_self
    have behind : ∀ f ∈ rest, f ∈ s.entries := fun f mem => known f (List.mem_cons_of_mem e mem)
    by_cases out : a.lapsed p owner now e = true
    · obtain ⟨result, serving', left⟩ := ih (serving.erase e) others
        (fun f mem => Store.mem_erase.2 ⟨behind f mem, (first f mem).symm⟩)
        (live_lapsed serving here out ends)
      refine ⟨by rw [result, List.filter_cons_of_neg (by simp [out])], serving', ?_⟩
      rw [left, Store.erase_eq, Store.record_entries, List.filter_filter]
      refine List.filter_congr fun f mem => ?_
      by_cases same : f = e
      · simp [same, out]
      · have other : f.key ≠ e.key := fun key => same (serving.ascending.eq_of_key mem here key)
        simp [same, other]
    · have stays : s.entries.filter (fun f => !(decide (f ∈ rest) && a.lapsed p owner now f)) =
          s.entries.filter fun f => !(decide (f ∈ e :: rest) && a.lapsed p owner now f) := by
        refine List.filter_congr fun f _ => ?_
        by_cases same : f = e
        · simp [same, out]
        · simp [same]
      rw [List.filter_cons_of_pos (by simp [out])]
      cases read : SubnetClaim.ofEntry a.layout e with
      | error f =>
        rw [live_malformed a read] at ends
        obtain ⟨result, serving', left⟩ := ih serving others behind ends
        refine ⟨?_, serving', left.trans stays⟩
        rw [result, decodeClaims, decodeClaims, List.filterMap_cons_none (by rw [read]; rfl)]
      | ok c =>
        obtain ⟨current, fits⟩ := (not_lapsed read).1 out
        rw [live_other a read current fits] at ends
        obtain ⟨z, w, ends, last⟩ := Program.ends_bind ends
        obtain ⟨result, serving', left⟩ := ih serving others behind ends
        subst result
        obtain ⟨rfl, rfl⟩ := Program.ends_pure last
        refine ⟨?_, serving', left.trans stays⟩
        rw [decodeClaims, decodeClaims, List.filterMap_cons_some (by rw [read]; rfl)]

/-! What is settled on. -/

/-- The subnet that was asked for can be leased: no lease that counts is in its way, nor an entry under
its key that cannot be read. -/
structure Reusable (a : LeaseAllocator) (p : Pool) (left : List KeyValue) (q : Subnet) : Prop where
  compatible : p.isCompatible q = true
  apart : ∀ d ∈ a.readable p left, d.subnet.overlaps q = false
  legible : ∀ e ∈ left, e.key = a.layout.subnetKey p.name q → (ClaimRecord.decode? e.value).isSome

/-- The entries are those that were left, but for one that says who has the subnet and until when. -/
def Recorded (a : LeaseAllocator) (p : Pool) (left : List KeyValue) (c : SubnetClaim)
    (entries : List KeyValue) : Prop :=
  ∃ f, f.key = a.layout.subnetKey p.name c.subnet ∧
    f.value = ClaimRecord.encode { owner := c.owner, expiration := some c.expiration } ∧
    ∀ e, e ∈ entries ↔ e = f ∨ e ∈ left ∧ e.key ≠ f.key

/-- A lease has been acquired where these entries were left. -/
structure Acquired (a : LeaseAllocator) (p : Pool) (owner : String) (previous : Option Subnet)
    (now : UInt64) (left : List KeyValue) (c : SubnetClaim) (entries : List KeyValue) : Prop where
  inPool : c.pool = p.name
  forOwner : c.owner = owner
  renewed : c.expiration = a.expiration now
  compatible : p.isCompatible c.subnet = true
  /-- The first lease of the owner that counts is kept. -/
  kept : ∀ mine, (a.readable p left).find? (·.owner = owner) = some mine → c.subnet = mine.subnet
  /-- Otherwise it is the subnet he asked for, if that can be leased. -/
  again : (a.readable p left).find? (·.owner = owner) = none →
    ∀ q, previous = some q → a.Reusable p left q → c.subnet = q
  apart : (a.readable p left).find? (·.owner = owner) = none →
    ∀ d ∈ a.readable p left, d.subnet.overlaps c.subnet = false
  recorded : a.Recorded p left c entries

/-- What an attempt comes to. -/
def Tried (a : LeaseAllocator) (p : Pool) (owner : String) (previous : Option Subnet) (now : UInt64)
    (left entries : List KeyValue) : Except Failure (Option SubnetClaim) → Prop
  | .ok (some c) => a.Acquired p owner previous now left c entries
  | _ => entries = left

theorem write_recorded (serving : t.Serving) (same : t.entries = left) (pool : c.pool = p.name) :
    a.Recorded p left c (t.write (a.layout.subnetKey c.pool c.subnet)
      (LeasePool.record c.owner c.expiration)).entries := by
  rw [pool]
  refine ⟨t.written _ _, rfl, rfl, fun e => ?_⟩
  rw [Store.mem_write serving.ascending, same]
  rfl

theorem create_ends (serving : t.Serving) {q : Subnet} {x : Except Failure (Option SubnetClaim)}
    (ends : Program.Ends (Store.Attends now) (a.create p owner q) t x u) :
    ((t.find? (a.layout.subnetKey p.name q)).isSome ∧ x = .ok none ∧ u = t) ∨
      x = .ok (some ⟨p.name, q, owner, a.expiration now⟩) ∧
        u = t.write (a.layout.subnetKey p.name q) (LeasePool.record owner (a.expiration now)) := by
  rw [create_eq] at ends
  have ends := Store.ends_now ends
  cases stands : t.find? (a.layout.subnetKey p.name q) with
  | some _ =>
    have ends := Store.ends_store (serving.serve_taken (Option.isSome_of_eq_some stands) _) ends
    obtain ⟨rfl, rfl⟩ := Program.ends_pure ends
    exact .inl ⟨rfl, rfl, rfl⟩
  | none =>
    have ends := Store.ends_store (serving.serve_created stands _) ends
    obtain ⟨rfl, rfl⟩ := Program.ends_pure ends
    exact .inr ⟨rfl, rfl⟩

/-- A subnet that no lease that counts overlaps, where the owner has no such lease. -/
theorem created_acquired (serving : t.Serving) (same : t.entries = left)
    (none : (a.readable p left).find? (·.owner = owner) = none) {q : Subnet}
    (compatible : p.isCompatible q = true) (apart : ∀ d ∈ a.readable p left, d.subnet.overlaps q = false)
    (again : ∀ r, previous = some r → a.Reusable p left r → q = r) :
    a.Acquired p owner previous now left ⟨p.name, q, owner, a.expiration now⟩
      (t.write (a.layout.subnetKey p.name q) (LeasePool.record owner (a.expiration now))).entries where
  inPool := rfl
  forOwner := rfl
  renewed := rfl
  compatible := compatible
  kept mine found := by
    rw [none] at found
    cases found
  again _ := again
  apart _ := apart
  recorded := write_recorded (c := ⟨p.name, q, owner, a.expiration now⟩) serving same rfl

theorem createAny_ends (serving : t.Serving) (same : t.entries = left)
    (none : (a.readable p left).find? (·.owner = owner) = none)
    (refused : ∀ r, previous = some r → ¬ a.Reusable p left r)
    {x : Except Failure (Option SubnetClaim)}
    (ends : Program.Ends (Store.Attends now) (a.createAny p owner (a.readable p left)) t x u) :
    u.Serving ∧ a.Tried p owner previous now left u.entries x := by
  unfold createAny at ends
  split at ends
  · obtain ⟨rfl, rfl⟩ := Program.ends_pure ends
    exact ⟨serving, same⟩
  · rename_i first rest found
    obtain ⟨i, ends⟩ := Store.ends_pick ends
    have mem : (first :: rest).get i ∈ Search.subnetCandidates p.bounds p.firstCandidate p.subnetLen
        ((a.readable p left).map (·.subnet)) Search.candidateLimit := by
      rw [found]
      exact List.get_mem (first :: rest) i
    rcases create_ends serving ends with ⟨_, rfl, rfl⟩ | ⟨rfl, rfl⟩
    · exact ⟨serving, same⟩
    · refine ⟨serving.write _ _, created_acquired serving same none (Pool.isCompatible_of_mem mem) ?_
        fun r asked fits => absurd fits (refused r asked)⟩
      intro d there
      have free := (Search.subnetCandidates_sound mem).2.2.2 d.subnet.range
        (List.mem_map_of_mem (List.mem_map_of_mem there))
      rw [Subnet.overlaps, AddressRange.overlaps_comm]
      exact free

/-- What the entries that are left have in common: none has lapsed, and each lease that can be read stands
under its own key. -/
structure Orderly (a : LeaseAllocator) (p : Pool) (owner : String) (now : UInt64)
    (left : List KeyValue) : Prop where
  lasting : ∀ e ∈ left, a.below p e = true → ¬ a.lapsed p owner now e = true
  canonical : ∀ e ∈ left, a.below p e = true → ∀ c, SubnetClaim.ofEntry a.layout e = .ok c →
    a.layout.subnetKey c.pool c.subnet = e.key

/-- A key below the pool is that of one of its leases. -/
theorem pool_of_below (under : a.below p e = true) (read : SubnetClaim.ofEntry a.layout e = .ok c) :
    c.pool = p.name := by
  have parsed := (SubnetClaim.ofEntry_eq_ok.1 read).1
  simp only [KeyLayout.parseSubnetKey, bind, Option.bind_eq_some_iff, Prod.exists, pure] at parsed
  obtain ⟨q, slot, parts, _, _, _, _, _, _, _, _, _, same⟩ := parsed
  obtain ⟨text, _⟩ := KeyLayout.claimParts?_pool under parts
  obtain ⟨name, _⟩ := Prod.mk.inj (Option.some.inj same)
  rw [← name, text, String.ofList_toList]

/-- A subnet that can be leased has a free key. -/
theorem Reusable.free (serving : t.Serving) (same : t.entries = left) (named : KeyLayout.Named p.name)
    {q : Subnet} (reusable : a.Reusable p left q) : t.find? (a.layout.subnetKey p.name q) = none := by
  cases found : t.find? (a.layout.subnetKey p.name q) with
  | none => rfl
  | some e =>
    obtain ⟨mem, key⟩ := (Store.find?_eq_some_iff serving.ascending).1 found
    rw [same] at mem
    obtain ⟨r, decoded⟩ := Option.isSome_iff_exists.1 (reusable.legible e mem key)
    have read : SubnetClaim.ofEntry a.layout e =
        .ok ⟨p.name, q, r.owner, r.expiration.getD 0xFFFFFFFFFFFFFFFF⟩ := by
      refine SubnetClaim.ofEntry_eq_ok.2 ⟨?_, ?_⟩
      · rw [key]
        exact KeyLayout.parseSubnetKey_subnetKey_eq_some.2 ⟨rfl, named, rfl⟩
      · rw [KeyValue.lease, leaseOf, decoded]
        rfl
    have under : a.below p e = true := by
      rw [below, key]
      exact startsWith_append _ _
    have clash := reusable.apart _ (mem_readable.2 ⟨e, mem, under, read⟩)
    rw [Subnet.overlaps, AddressRange.overlaps_self] at clash
    cases clash

theorem write_ends (serving : t.Serving) (same : t.entries = left) (orderly : a.Orderly p owner now left)
    {mine : SubnetClaim} (first : (a.readable p left).find? (·.owner = owner) = some mine)
    {x : Except Failure SubnetClaim}
    (ends : Program.Ends (Store.Attends now) (a.write mine) t x u) :
    x = .ok { mine with expiration := a.expiration now } ∧ u.Serving ∧
      a.Acquired p owner previous now left { mine with expiration := a.expiration now } u.entries := by
  obtain ⟨e, here, under, read⟩ := mem_readable.1 (List.mem_of_find?_eq_some first)
  have own : mine.owner = owner := of_decide_eq_true (List.find?_some first :)
  have pool := pool_of_below under read
  rw [write_eq] at ends
  have rest := Store.ends_store (serving.serve_put _ _) (Store.ends_now ends)
  obtain ⟨rfl, rfl⟩ := Program.ends_pure rest
  refine ⟨rfl, serving.write _ _, pool, own, rfl, ?_, ?_, ?_, ?_, ?_⟩
  · have fits := ((not_lapsed read).1 (orderly.lasting e here under)).2
    exact Decidable.not_not.1 fun unfit => fits ⟨own, unfit⟩
  · intro other found
    rw [first] at found
    cases found
    rfl
  · intro none
    rw [first] at none
    cases none
  · intro none
    rw [first] at none
    cases none
  · exact write_recorded (c := { mine with expiration := a.expiration now }) serving same pool

theorem reclaimable_eq_some {live : List SubnetClaim} {q : Subnet} :
    reclaimable p live previous = some q ↔ previous = some q ∧ p.isCompatible q = true ∧
      ∀ d ∈ live, d.subnet.overlaps q = false := by
  simp [reclaimable, Option.filter_eq_some_iff]

theorem settle_ends (serving : t.Serving) (same : t.entries = left) (orderly : a.Orderly p owner now left)
    (named : KeyLayout.Named p.name) {x : Except Failure (Option SubnetClaim)}
    (ends : Program.Ends (Store.Attends now) (a.settle p owner previous (a.readable p left)) t x u) :
    u.Serving ∧ a.Tried p owner previous now left u.entries x := by
  unfold settle at ends
  split at ends
  · rename_i mine first
    rw [Operation.bind_eq] at ends
    obtain ⟨y, v, written, rest⟩ := Program.ends_bind ends
    obtain ⟨rfl, serving, acquired⟩ := write_ends serving same orderly first written
    obtain ⟨rfl, rfl⟩ := Program.ends_pure rest
    exact ⟨serving, acquired⟩
  · rename_i none refused
    refine createAny_ends serving same none (fun r asked fits => ?_) ends
    rw [reclaimable_eq_some.2 ⟨asked, fits.compatible, fits.apart⟩] at refused
    cases refused
  · rename_i q none found
    obtain ⟨asked, compatible, apart⟩ := reclaimable_eq_some.1 found
    rw [Operation.bind_eq] at ends
    obtain ⟨y, v, created, rest⟩ := Program.ends_bind ends
    rcases create_ends serving created with ⟨taken, rfl, rfl⟩ | ⟨rfl, rfl⟩
    · refine createAny_ends serving same none (fun r asked' fits => ?_) rest
      cases asked.symm.trans asked'
      rw [fits.free serving same named] at taken
      cases taken
    · obtain ⟨rfl, rfl⟩ := Program.ends_pure rest
      refine ⟨serving.write _ _, created_acquired serving same none compatible apart fun r asked' _ => ?_⟩
      exact Option.some.inj (asked.symm.trans asked')

/-! Attempts. -/

theorem tryAcquire_ends (serving : t.Serving) (same : a.swept p owner now t.entries = left)
    (orderly : a.Orderly p owner now left) (named : KeyLayout.Named p.name)
    {x : Except Failure (Option SubnetClaim)}
    (ends : Program.Ends (Store.Attends now) (a.tryAcquire p owner previous) t x u) :
    u.Serving ∧ a.Tried p owner previous now left u.entries x := by
  rw [tryAcquire_eq] at ends
  have listed : t.serve (.range (a.layout.claimStart .subnet p.name)) =
      (some (.ok ⟨t.entries.filter (a.below p), t.revision⟩), t) := by
    rw [Store.serve, Store.range_of_available serving.ascending serving.available]
    rfl
  have ends := Store.ends_store listed (Store.ends_now ends)
  obtain ⟨y, v, passed, rest⟩ := Program.ends_bind ends
  obtain ⟨rfl, serving', entries⟩ := live_ends serving
    ((serving.ascending.filter _).imp fun lt => Std.ne_of_lt lt)
    (fun e mem => (List.mem_filter.1 mem).1) passed
  have remains : v.entries = left := by
    rw [entries, ← same]
    refine List.filter_congr fun f mem => ?_
    simp [List.mem_filter, mem]
  have found : decodeClaims (SubnetClaim.ofEntry a.layout)
      ((t.entries.filter (a.below p)).filter fun e => !a.lapsed p owner now e) = a.readable p left := by
    rw [readable, ← same, swept, List.filter_filter, List.filter_filter]
    congr 1
    refine List.filter_congr fun f _ => ?_
    cases a.below p f <;> simp
  rw [found] at rest
  exact settle_ends serving' remains orderly named rest

theorem pause_ends {β : Type} {r : Retry} {tries : Nat} {f : Unit → Program β} {b : β}
    (ends : Program.Ends (Store.Attends now) ((r.pause tries).bind f) t b u) :
    Program.Ends (Store.Attends now) (f ()) t b u := by
  unfold Retry.pause at ends
  split at ends
  · exact Store.ends_sleep ends
  · exact ends

theorem attempt_ends (orderly : a.Orderly p owner now left) (named : KeyLayout.Named p.name) {r : Retry}
    {tries : Nat} (serving : t.Serving) (same : a.swept p owner now t.entries = left)
    {x : Except Failure SubnetClaim}
    (ends : Program.Ends (Store.Attends now)
      (r.attempt p.name (a.tryAcquire p owner previous) tries) t x u) :
    (∀ c, x = .ok c → a.Acquired p owner previous now left c u.entries) ∧
      ∀ e, x = .error e → u.entries = left ∨ tries = 0 ∧ u = t := by
  induction tries generalizing t with
  | zero =>
    obtain ⟨rfl, rfl⟩ := Program.ends_pure ends
    exact ⟨nofun, fun _ _ => .inr ⟨rfl, rfl⟩⟩
  | succ tries ih =>
    rw [Retry.attempt_succ] at ends
    obtain ⟨y, v, tried, rest⟩ := Program.ends_bind ends
    obtain ⟨serving', came⟩ := tryAcquire_ends serving same orderly named tried
    -- The entries that an attempt leaves behind are those that the next one finds.
    have following (stays : v.entries = left) (rest : Program.Ends (Store.Attends now)
        ((r.pause tries).bind fun _ => r.attempt p.name (a.tryAcquire p owner previous) tries) v x u) :
        (∀ c, x = .ok c → a.Acquired p owner previous now left c u.entries) ∧
          ∀ e, x = .error e → u.entries = left ∨ tries + 1 = 0 ∧ u = t := by
      have again : a.swept p owner now v.entries = left := by
        rw [stays, ← same, swept_swept]
      obtain ⟨acquired, failed⟩ := ih serving' again (pause_ends rest)
      refine ⟨acquired, fun e error => .inl ?_⟩
      rcases failed e error with stays' | ⟨_, rfl⟩
      · exact stays'
      · exact stays
    match y, came with
    | .ok (some c), came =>
      obtain ⟨rfl, rfl⟩ := Program.ends_pure rest
      exact ⟨fun c same => Except.ok.inj same ▸ came, nofun⟩
    | .ok none, stays => exact following stays rest
    | .error e, stays =>
      change Program.Ends _ (if e.retriable then _ else _) v x u at rest
      split at rest
      · exact following stays rest
      · obtain ⟨rfl, rfl⟩ := Program.ends_pure rest
        exact ⟨nofun, fun _ _ => .inl stays⟩

/-- A call that nobody disturbs leases what it should, or fails, and in the store nothing else changes
than that the leases that have lapsed are gone. -/
theorem acquire_acquires {config : PoolConfig} (made : Pool.ofConfig config = .ok p)
    (kind : p.kind = .subnet) (serving : s.Serving)
    (canonical : ∀ e ∈ s.entries, a.below p e = true → ∀ c, SubnetClaim.ofEntry a.layout e = .ok c →
      a.layout.subnetKey c.pool c.subnet = e.key) {x : Except Failure SubnetClaim}
    (ends : (a.acquire p owner previous).outcome.Ends (Store.Attends now) s x t) :
    (∀ c, x = .ok c →
      a.Acquired p owner previous now (a.swept p owner now s.entries) c t.entries) ∧
    ∀ e, x = .error e →
      t.entries = a.swept p owner now s.entries ∨ a.retry.attempts = 0 ∧ t = s := by
  have orderly : a.Orderly p owner now (a.swept p owner now s.entries) := by
    refine ⟨fun e mem under out => (mem_swept.1 mem).2 ⟨under, out⟩, fun e mem => ?_⟩
    exact canonical e (mem_swept.1 mem).1
  rw [Operation.outcome, acquire, if_neg (not_not_intro kind)] at ends
  exact attempt_ends orderly (Pool.ofConfig_named made) serving rfl ends

/-! A pool of two subnets. Nobody can read what stands under the key of the first one; the second one is
leased, in part to the caller, and the other lease of it has ended. -/

def strewn : Store :=
  (garbled.write (leases.layout.subnetKey "green" (half 0x0A000100)) (LeasePool.record "gone" 0)).write
    (leases.layout.subnetKey "green" (.around 0x0A000180 25 (by decide))) (LeasePool.record "me" 1000)

theorem mem_strewn {e : KeyValue} (mem : e ∈ strewn.entries) :
    ∃ q, e.key = leases.layout.subnetKey "green" q := by
  have bare : Store.Ascending (Store.empty 100).entries := .nil
  rcases (Store.mem_write (Store.write_ascending (Store.write_ascending bare _ _) _ _)).1 mem with
    rfl | ⟨mem, _⟩
  · exact ⟨_, rfl⟩
  · rcases (Store.mem_write (Store.write_ascending bare _ _)).1 mem with rfl | ⟨mem, _⟩
    · exact ⟨_, rfl⟩
    · rcases (Store.mem_write bare).1 mem with rfl | ⟨mem, _⟩
      · exact ⟨_, rfl⟩
      · cases mem

theorem second_half_is_acquired : Pool.ofConfig halvedConfig = .ok halved ∧ strewn.Serving ∧
    ∃ c t, (leases.acquire halved "me" (some (half 0x0A000000))).outcome.Ends (Store.Attends 0) strewn
        (.ok c) t ∧ c = ⟨"green", half 0x0A000100, "me", 86400000⟩ ∧
      leases.readable halved (leases.swept halved "me" 0 strewn.entries) = [] ∧
      leases.Acquired halved "me" (some (half 0x0A000000)) 0
        (leases.swept halved "me" 0 strewn.entries) c t.entries ∧
      t.entries.map (·.key) = [leases.layout.subnetKey "green" (half 0x0A000000),
        leases.layout.subnetKey "green" (half 0x0A000100)] := by
  have bare : (Store.empty 100).Serving := ⟨.nil, rfl, rfl⟩
  have serving : strewn.Serving := ((bare.write _ _).write _ _).write _ _
  have run : ((leases.acquire halved "me" (some (half 0x0A000000))).outcome.run Store.attend strewn).map
      (fun x => (x.1.toOption, x.2.entries.map (·.key))) =
        some (some ⟨"green", half 0x0A000100, "me", 86400000⟩,
          [leases.layout.subnetKey "green" (half 0x0A000000),
            leases.layout.subnetKey "green" (half 0x0A000100)]) := by decide +kernel
  obtain ⟨⟨x, t⟩, run, same⟩ := Option.map_eq_some_iff.1 run
  obtain ⟨result, keys⟩ := Prod.mk.inj same
  have ends := Program.run_ends Store.attend_attends run
  cases toOption_eq_some.1 result
  refine ⟨halvedConfig_made, serving, _, t, ends, rfl, by decide +kernel, ?_, keys⟩
  refine (acquire_acquires halvedConfig_made rfl serving (fun e mem _ c read => ?_) ends).1 _ rfl
  obtain ⟨q, key⟩ := mem_strewn mem
  have parsed := (SubnetClaim.ofEntry_eq_ok.1 read).1
  rw [key] at parsed ⊢
  obtain ⟨pool, _, subnet⟩ := KeyLayout.parseSubnetKey_subnetKey_eq_some.1 parsed
  rw [pool, subnet]

end LeaseAllocator

end NetPool
