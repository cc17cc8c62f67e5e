import NetPool.Proofs.Block.Calls
import NetPool.Proofs.Draw
import NetPool.Proofs.Exchanges
import NetPool.Proofs.Lease.Calls
import NetPool.Proofs.Pin.Stable
import NetPool.Proofs.Pool

/-! The keys that allocators place in the store, whatever they are answered and whatever number they pick:
what a key denotes keeps to the bounds of its pool and to what the pool holds back. -/

namespace NetPool

/-- What a program places are keys of a kind. -/
def Places (fits : String → Prop) (_ : List Exchange) (r : Request) : Prop :=
  ∀ key, r.places = some key → fits key

theorem Places.none {fits : String → Prop} {h : List Exchange} {r : Request} (none : r.places = none) :
    Places fits h r := by
  intro key some
  rw [none] at some
  cases some

variable {p : Pool} {allowed : (r : Request) → r.Answer → Prop} {h : List Exchange}

/-! Blocks. -/

namespace BlockAllocator

variable {a : BlockAllocator} {owner : String}

def Fits (l : KeyLayout) (p : Pool) (key : String) : Prop :=
  ∃ r, l.parseRangeKey key = some (p.name, r) ∧ p.bounds.containsRange r = true ∧
    p.firstCandidate ≤ r.start.toUInt64

theorem fits_of_firstFit {l : KeyLayout} (named : KeyLayout.Named p.name) (kind : p.kind = .range)
    (le : p.blockExp ≤ 32) {claimed : List AddressRange} {r : AddressRange}
    (found : Search.firstFit p.bounds p.firstCandidate p.blockSize claimed = some r) :
    Fits l p (l.rangeKey p.name r.start p.blockExp) := by
  obtain ⟨⟨whole, low, high⟩, _⟩ := Pool.firstFit_block found
  have size := whole.trans (Pool.blockSize_toNat kind le)
  have start := p.firstCandidate_toNat
  refine ⟨r, KeyLayout.parseRangeKey_rangeKey_eq_some.2 ⟨rfl, named, rfl, size, le⟩, ?_, ?_⟩
  · exact AddressRange.containsRange_iff.2 ⟨by omega, high⟩
  · rw [UInt64.le_iff_toNat_le, UInt32.toNat_toUInt64]
    exact low

theorem allocate_makes (named : KeyLayout.Named p.name) (le : p.blockExp ≤ 32) :
    Makes allowed (Places (Fits a.layout p)) (fun _ _ => True) (a.allocate p owner) h := by
  have once (kind : p.kind = .range) (h : List Exchange) :
      Makes allowed (Places (Fits a.layout p)) (fun _ _ => True) (a.claimFirstFit p owner) h := by
    rw [claimFirstFit_eq]
    apply Makes.stored (.none rfl)
    intro found _
    unfold place
    split
    · exact Makes.failure
    · rename_i range fit
      rw [Operation.store_bind]
      refine Makes.stored ?_ fun creation _ => ?_
      · rintro key ⟨⟩
        exact fits_of_firstFit named kind le fit
      · cases creation with
        | created => exact Makes.result trivial
        | alreadyExists => exact Makes.failure
  refine allocate_safe (fun _ => True) (fun _ _ => True) (fun _ _ => True) (fun _ _ => trivial)
    (fun _ _ _ => trivial) (fun _ _ _ => trivial)
    (fun {g _ _ _} _ _ _ => ⟨trivial, Places.none (h := g) rfl, trivial⟩) (fun kind _ _ => ?_)
    (fun _ _ => trivial) (fun {_ g _ _} _ _ _ => ⟨trivial, Places.none (h := g) rfl, trivial⟩) trivial trivial
  exact Makes.underLock (.none rfl) (fun _ _ => .none rfl) (once kind)

end BlockAllocator

/-! Leases. -/

namespace LeaseAllocator

variable {a : LeaseAllocator} {owner : String} {previous : Option Subnet}

/-- The leases of the pool were listed last after the clock told `now`, this entry among them, and `since`
is what has been answered from then on. -/
def Listed (a : LeaseAllocator) (p : Pool) (now : UInt64) (e : KeyValue) (since h : List Exchange) : Prop :=
  ∃ before found, h = before ++
      [⟨.now, now⟩, ⟨.store (.range (a.layout.claimStart .subnet p.name)), .ok found⟩] ++ since ∧
    e ∈ found.entries ∧ ∀ x ∈ since, ∀ start, x.request ≠ .store (.range start)

/-- The claim was read from a listed entry. It fits the pool if it is the owner's, unless it had ended and
its deletion found the entry changed. -/
def Rewritable (a : LeaseAllocator) (p : Pool) (owner : String) (h : List Exchange) (c : SubnetClaim) :
    Prop :=
  ∃ now e since, a.Listed p now e since h ∧ SubnetClaim.ofEntry a.layout e = .ok c ∧
    (c.owner = owner → p.isCompatible c.subnet = true ∨
      c.isExpired now = true ∧ (⟨.store (.compareAndDelete e.key e.modified), .ok false⟩ : Exchange) ∈ since)

structure Fits (a : LeaseAllocator) (p : Pool) (owner : String) (previous : Option Subnet)
    (h : List Exchange) (r : Request) : Prop where
  created : ∀ key value, r = .store (.create key value) → ∃ s, key = a.layout.subnetKey p.name s ∧
    p.isCompatible s = true ∧ (some s ≠ previous → p.firstCandidate ≤ s.network.toUInt64)
  put : ∀ key value, r = .store (.put key value) → ∃ c, key = a.layout.subnetKey c.pool c.subnet ∧
    c.owner = owner ∧ a.Rewritable p owner h c

/-- What the requests of an acquisition may be, given what is known of the entries listed after some reading
of the clock and which of their leases may be written again. Both stay as they are until the next listing. -/
structure Acquiring (a : LeaseAllocator) (p : Pool) (owner : String) (previous : Option Subnet)
    (allowed : (r : Request) → r.Answer → Prop) (keeps : List Exchange → Request → Prop)
    (known : UInt64 → List Exchange → KeyValue → Prop) (good : List Exchange → SubnetClaim → Prop) :
    Prop where
  clock : ∀ h, keeps h .now
  sleeps : ∀ h ms, keeps h (.sleep ms)
  picks : ∀ h bound, keeps h (.pick bound)
  lists : ∀ h start, keeps h (.store (.range start))
  reaps : ∀ h key modified, keeps h (.store (.compareAndDelete key modified))
  creates : ∀ h s value, p.isCompatible s = true →
    (some s ≠ previous → p.firstCandidate ≤ s.network.toUInt64) →
    keeps h (.store (.create (a.layout.subnetKey p.name s) value))
  puts : ∀ h c value, c.owner = owner → good h c →
    keeps h (.store (.put (a.layout.subnetKey c.pool c.subnet) value))
  listed : ∀ h now found, allowed (.store (.range (a.layout.claimStart .subnet p.name))) (.ok found) →
    ∀ e ∈ found.entries, known now
      (h ++ [⟨.now, now⟩] ++ [⟨.store (.range (a.layout.claimStart .subnet p.name)), .ok found⟩]) e
  known_later : ∀ now h e x, known now h e → (∀ start, x.request ≠ .store (.range start)) →
    known now (h ++ [x]) e
  good_later : ∀ h c x, good h c → (∀ start, x.request ≠ .store (.range start)) → good (h ++ [x]) c
  late : ∀ now h e c, known now h e → SubnetClaim.ofEntry a.layout e = .ok c → c.isExpired now = true →
    good (h ++ [⟨.store (.compareAndDelete e.key e.modified), .ok false⟩]) c
  stands : ∀ now h e c, known now h e → SubnetClaim.ofEntry a.layout e = .ok c →
    ¬ (c.owner = owner ∧ ¬ p.isCompatible c.subnet = true) → good h c

section

variable {keeps : List Exchange → Request → Prop} {known : UInt64 → List Exchange → KeyValue → Prop}
  {good : List Exchange → SubnetClaim → Prop}
  (acquiring : Acquiring a p owner previous allowed keeps known good)

include acquiring

/-- The leases that count may be written again, as may all that could be before. -/
theorem live_makes {now : UInt64} {entries : List KeyValue} (read : ∀ e ∈ entries, known now h e) :
    Makes allowed keeps (fun live g => (∀ c ∈ live, good g c) ∧ ∀ c, good h c → good g c)
      (a.live p owner now entries) h := by
  induction entries generalizing h with
  | nil => exact Makes.result ⟨nofun, fun _ => id⟩
  | cons e rest ih =>
    obtain ⟨here, behind⟩ := List.forall_mem_cons.1 read
    -- After an answer to a deletion the rest is as known as before.
    have reaped (x : Except StoreError Bool) : Makes allowed keeps
        (fun live g => (∀ c ∈ live, good g c) ∧
          ∀ c, good (h ++ [⟨.store (.compareAndDelete e.key e.modified), x⟩]) c → good g c)
        (a.live p owner now rest) (h ++ [⟨.store (.compareAndDelete e.key e.modified), x⟩]) :=
      ih fun d mem => acquiring.known_later now h d _ (behind d mem) nofun
    have stays {x : Except StoreError Bool} {c : SubnetClaim} (before : good h c) :
        good (h ++ [⟨.store (.compareAndDelete e.key e.modified), x⟩]) c :=
      acquiring.good_later h c _ before nofun
    cases claim : SubnetClaim.ofEntry a.layout e with
    | error =>
      rw [live_malformed a claim]
      exact ih behind
    | ok c =>
      by_cases ended : c.isExpired now = true
      · rw [live_expired a claim ended]
        apply Makes.stored (acquiring.reaps _ _ _)
        intro gone _
        apply Makes.onward (reaped _)
        rintro others g ⟨fits, kept⟩
        apply Makes.result
        cases gone with
        | true => exact ⟨fits, fun d before => kept d (stays before)⟩
        | false =>
          have late := kept c (acquiring.late now h e c here claim ended)
          exact ⟨List.forall_mem_cons.2 ⟨late, fits⟩, fun d before => kept d (stays before)⟩
      · by_cases unfit : c.owner = owner ∧ ¬ p.isCompatible c.subnet = true
        · rw [live_incompatible a claim ended unfit]
          apply Makes.stored (acquiring.reaps _ _ _)
          intro gone _
          apply (reaped _).weaken
          intro x g _ reached
          cases x with
          | error => trivial
          | ok live => exact ⟨reached.1, fun d before => reached.2 d (stays before)⟩
        · rw [live_other a claim ended unfit]
          apply Makes.onward (ih behind)
          rintro others g ⟨fits, kept⟩
          apply Makes.result
          exact ⟨List.forall_mem_cons.2 ⟨kept c (acquiring.stands now h e c here claim unfit), fits⟩, kept⟩

theorem create_makes {s : Subnet} (compatible : p.isCompatible s = true)
    (first : some s ≠ previous → p.firstCandidate ≤ s.network.toUInt64) :
    Makes allowed keeps (fun _ _ => True) (a.create p owner s) h := by
  rw [create_eq]
  apply Makes.ask (acquiring.clock h)
  intro now _
  exact Makes.stored (acquiring.creates _ s _ compatible first) fun _ _ => Makes.result trivial

theorem write_makes {c : SubnetClaim} (own : c.owner = owner) (fits : good h c) :
    Makes allowed keeps (fun _ _ => True) (a.write c) h := by
  rw [write_eq]
  apply Makes.ask (acquiring.clock h)
  intro now _
  have fits := acquiring.good_later h c ⟨.now, now⟩ fits nofun
  exact Makes.stored (acquiring.puts _ c _ own fits) fun _ _ => Makes.result trivial

theorem createAny_makes {live : List SubnetClaim} :
    Makes allowed keeps (fun _ _ => True) (a.createAny p owner live) h := by
  unfold createAny
  split
  · exact Makes.failure
  · rename_i first rest found
    apply Makes.ask (acquiring.picks h _)
    intro n _
    have mem : (first :: rest).get n ∈ Search.subnetCandidates p.bounds p.firstCandidate p.subnetLen
        (live.map (·.subnet)) Search.candidateLimit := by
      rw [found]
      exact List.get_mem (first :: rest) n
    apply create_makes acquiring (Pool.isCompatible_of_mem mem)
    intro _
    obtain ⟨_, low, _⟩ := Search.subnetCandidates_sound mem
    rw [max_toNat] at low
    rw [UInt64.le_iff_toNat_le, UInt32.toNat_toUInt64]
    exact Nat.le_trans (Nat.le_max_left _ _) low

theorem settle_makes {live : List SubnetClaim} (fits : ∀ c ∈ live, good h c) :
    Makes allowed keeps (fun _ _ => True) (a.settle p owner previous live) h := by
  unfold settle
  split
  · rename_i c found
    have own : c.owner = owner := by simpa using List.find?_some found
    rw [Operation.bind_eq]
    apply Makes.onward (write_makes acquiring own (fits c (List.mem_of_find?_eq_some found)))
    exact fun _ _ _ => Makes.result trivial
  · exact createAny_makes acquiring
  · rename_i s _ found
    obtain ⟨asked, free⟩ := Option.filter_eq_some_iff.1 found
    rw [Operation.bind_eq]
    apply Makes.onward (create_makes acquiring (Bool.and_eq_true_iff.1 free).1
      fun other => absurd asked.symm other)
    intro d _ _
    cases d with
    | none => exact createAny_makes acquiring
    | some c => exact Makes.result trivial

theorem acquire_makes : Makes allowed keeps (fun _ _ => True) (a.acquire p owner previous) h := by
  have once (h : List Exchange) :
      Makes allowed keeps (fun _ _ => True) (a.tryAcquire p owner previous) h := by
    rw [tryAcquire_eq]
    apply Makes.ask (acquiring.clock h)
    intro now _
    apply Makes.stored (acquiring.lists _ _)
    intro found fine
    apply Makes.onward (live_makes acquiring (acquiring.listed h now found fine))
    exact fun live _ reached => settle_makes acquiring reached.1
  unfold acquire
  split
  · exact Makes.failure
  · exact Makes.run acquiring.sleeps once

end

theorem Listed.later {now : UInt64} {e : KeyValue} {since : List Exchange} {x : Exchange}
    (listed : a.Listed p now e since h) (other : ∀ start, x.request ≠ .store (.range start)) :
    a.Listed p now e (since ++ [x]) (h ++ [x]) := by
  obtain ⟨before, found, rfl, mem, quiet⟩ := listed
  refine ⟨before, found, List.append_assoc _ _ _, mem, ?_⟩
  rw [List.forall_mem_append, List.forall_mem_singleton]
  exact ⟨quiet, other⟩

theorem fits_acquiring : Acquiring a p owner previous allowed (a.Fits p owner previous)
    (fun now h e => ∃ since, a.Listed p now e since h) (a.Rewritable p owner) where
  clock _ := ⟨nofun, nofun⟩
  sleeps _ _ := ⟨nofun, nofun⟩
  picks _ _ := ⟨nofun, nofun⟩
  lists _ _ := ⟨nofun, nofun⟩
  reaps _ _ _ := ⟨nofun, nofun⟩
  creates h s _ compatible first := by
    refine ⟨?_, nofun⟩
    rintro key value ⟨⟩
    exact ⟨s, rfl, compatible, first⟩
  puts h c _ own fits := by
    refine ⟨nofun, ?_⟩
    rintro key value ⟨⟩
    exact ⟨c, rfl, own, fits⟩
  listed h now found _ e mem := ⟨[], h, found, by simp, mem, nofun⟩
  known_later := by
    rintro now h e x ⟨since, listed⟩ other
    exact ⟨_, listed.later other⟩
  good_later := by
    rintro h c x ⟨now, e, since, listed, read, fits⟩ other
    refine ⟨now, e, _, listed.later other, read, fun own => ?_⟩
    rcases fits own with compatible | ⟨ended, changed⟩
    · exact .inl compatible
    · exact .inr ⟨ended, List.mem_append_left _ changed⟩
  late := by
    rintro now h e c ⟨since, listed⟩ read ended
    exact ⟨now, e, _, listed.later nofun, read, fun _ => .inr ⟨ended, by simp⟩⟩
  stands := by
    rintro now h e c ⟨since, listed⟩ read fits
    exact ⟨now, e, since, listed, read, fun own => .inl (Classical.not_not.1 fun not => fits ⟨own, not⟩)⟩

end LeaseAllocator

/-! Single addresses. -/

namespace PinAllocator

variable {a : PinAllocator} {owner workload : String}

/-- An address that the pool hands out. -/
structure Free (p : Pool) (x : Address) : Prop where
  inside : p.bounds.contains x = true
  first : p.firstCandidate ≤ x.toUInt64
  unreserved : p.isReserved x = false

def Fits (l : KeyLayout) (p : Pool) (key : String) : Prop :=
  ∃ x, l.parseFixedKey key = some (p.name, x) ∧ Free p x

theorem keep_makes {c : FixedClaim} {pins : List Pin} :
    Makes allowed (Places (Fits a.layout p)) (fun _ _ => True) (a.keep p c pins) h := by
  unfold keep
  split
  · exact Makes.result trivial
  · split
    · exact Makes.result trivial
    · exact Makes.stored (.none rfl) fun _ _ => Makes.result trivial

theorem pin_makes (named : KeyLayout.Named p.name) {x : Address} (free : Free p x) :
    Makes allowed (Places (Fits a.layout p)) (fun _ _ => True) (a.pin p owner workload x) h := by
  refine Makes.stored ?_ fun outcome _ => ?_
  · rintro key ⟨⟩
    exact ⟨x, KeyLayout.parseFixedKey_fixedKey_eq_some.2 ⟨rfl, named, rfl⟩, free⟩
  · cases outcome with
    | alreadyExists => exact Makes.result trivial
    | created =>
      refine Makes.onward ?_ fun _ _ (_ : True) => Makes.result trivial
      rw [settle_eq]
      exact Makes.stored (.none rfl) fun _ _ => keep_makes

theorem claim_makes (named : KeyLayout.Named p.name) :
    Makes allowed (Places (Fits a.layout p)) (fun _ _ => True) (a.claim p owner workload) h := by
  have once (h : List Exchange) :
      Makes allowed (Places (Fits a.layout p)) (fun _ _ => True) (a.tryClaim p owner workload) h := by
    rw [tryClaim_eq]
    apply Makes.stored (.none rfl)
    intro found _
    unfold pinAny
    split
    · exact Makes.result trivial
    · refine Makes.onward (Search.pickFree_safe (fun _ _ => trivial)
        (fun {g _ _ _} _ _ _ => ⟨trivial, Places.none (h := g) rfl, trivial⟩) trivial trivial)
        fun x _ picked => ?_
      exact pin_makes named ⟨picked.1.inside, picked.1.first, picked.1.unreserved⟩
  rw [claim_eq]
  split
  · exact Makes.failure
  · split
    · exact Makes.failure
    · exact Makes.run (fun _ _ => .none rfl) once

end PinAllocator

/-! All of them. -/

theorem answerable {q : Request} {key : String} (places : q.places = some key) :
    ∃ x, q.anyhow x := by
  cases q with
  | store r =>
    have failed : Request.anyhow (.store r) (.error (.internal "")) := trivial
    exact ⟨_, failed⟩
  | cache | chore | now | instant | sleep | pick | isLive | apply => cases places

/-- Whatever is answered and picked: blocks and single addresses are placed in bounds, from the first
candidate on, and no address that is reserved. A lease is created for a subnet that fits the pool, from
the first candidate on unless the caller asked for that subnet. And it is put again for a lease of the owner
that has just been listed; that one fits the pool unless it had ended by then and its deletion found it
changed. -/
theorem placed_keys_keep_to_pool {c : PoolConfig} {p : Pool} (made : Pool.ofConfig c = .ok p) :
    (∀ (a : BlockAllocator) owner q key,
      Program.Asks Request.anyhow (a.allocate p owner).outcome q → q.places = some key →
      ∃ r, a.layout.parseRangeKey key = some (p.name, r) ∧ p.bounds.containsRange r = true ∧
        p.firstCandidate ≤ r.start.toUInt64) ∧
    (∀ (a : PinAllocator) owner workload q key,
      Program.Asks Request.anyhow (a.claim p owner workload).outcome q → q.places = some key →
      ∃ x, a.layout.parseFixedKey key = some (p.name, x) ∧ p.bounds.contains x = true ∧
        p.firstCandidate ≤ x.toUInt64 ∧ p.isReserved x = false) ∧
    (∀ (a : LeaseAllocator) owner previous q key,
      Program.Asks Request.anyhow (a.acquire p owner previous).outcome q → q.creates = some key →
      ∃ s, a.layout.parseSubnetKey key = some (p.name, s) ∧ s.length = p.subnetLen ∧
        p.bounds.containsRange s.range = true ∧
        (some s ≠ previous → p.firstCandidate ≤ s.network.toUInt64)) ∧
    ∀ (a : LeaseAllocator) owner previous h q key,
      Program.Reaches (a.acquire p owner previous).outcome h q → q.puts = some key →
      ∃ now e since d, a.Listed p now e since h ∧ SubnetClaim.ofEntry a.layout e = .ok d ∧
        d.owner = owner ∧ key = a.layout.subnetKey d.pool d.subnet ∧
        (d.subnet.length = p.subnetLen ∧ p.bounds.containsRange d.subnet.range = true ∨
          d.isExpired now = true ∧
            (⟨.store (.compareAndDelete e.key e.modified), .ok false⟩ : Exchange) ∈ since) := by
  have named := Pool.ofConfig_named made
  have fits {s : Subnet} (compatible : p.isCompatible s = true) :
      s.length = p.subnetLen ∧ p.bounds.containsRange s.range = true := by
    obtain ⟨length, inside⟩ := Bool.and_eq_true_iff.1 compatible
    exact ⟨beq_iff_eq.1 length, inside⟩
  refine ⟨?_, ?_, ?_, ?_⟩
  · intro a owner q key asks places
    have makes : Makes Request.anyhow (Places (BlockAllocator.Fits a.layout p)) (fun _ _ => True)
        (a.allocate p owner) [] :=
      BlockAllocator.allocate_makes named (Pool.ofConfig_blockExp_le made)
    obtain ⟨_, kept⟩ := Makes.keeps_of_asks makes asks (answerable places)
    exact kept key places
  · intro a owner workload q key asks places
    have makes : Makes Request.anyhow (Places (PinAllocator.Fits a.layout p)) (fun _ _ => True)
        (a.claim p owner workload) [] := PinAllocator.claim_makes named
    obtain ⟨_, kept⟩ := Makes.keeps_of_asks makes asks (answerable places)
    obtain ⟨x, denotes, inside, first, unreserved⟩ := kept key places
    exact ⟨x, denotes, inside, first, unreserved⟩
  · intro a owner previous q key asks creates
    obtain ⟨value, rfl⟩ := Request.creates_eq_some.1 creates
    obtain ⟨_, kept⟩ := Makes.keeps_of_asks (LeaseAllocator.acquire_makes LeaseAllocator.fits_acquiring) asks
      (answerable rfl)
    obtain ⟨s, rfl, compatible, first⟩ := kept.created key value rfl
    obtain ⟨length, inside⟩ := fits compatible
    exact ⟨s, KeyLayout.parseSubnetKey_subnetKey_eq_some.2 ⟨rfl, named, rfl⟩, length, inside, first⟩
  · intro a owner previous h q key reaches puts
    obtain ⟨value, rfl⟩ := Request.puts_eq_some.1 puts
    have makes : Makes Request.anyhow (a.Fits p owner previous) (fun _ _ => True)
        (a.acquire p owner previous) [] := LeaseAllocator.acquire_makes LeaseAllocator.fits_acquiring
    have kept := Makes.keeps_of_reaches makes reaches (fun _ _ => trivial) (answerable rfl)
    obtain ⟨d, rfl, own, now, e, since, listed, read, good⟩ := kept.put key value rfl
    refine ⟨now, e, since, d, listed, read, own, rfl, ?_⟩
    rcases good own with compatible | changed
    · exact .inl (fits compatible)
    · exact .inr changed

/-! A pool of two subnets, of which the first one is held back. -/

def halvedConfig : PoolConfig where
  name := "green"
  kind := .subnet
  subnet := "10.0.0.0/23"
  rangeStart := none
  rangeEnd := none
  gateway := none
  reservedOffset := 256
  blockExp := none
  subnetLen := some 24
  previousSubnet := none

def halved : Pool :=
  { Pool.covering "green" .subnet (.around 0x0A000000 23 (by decide)) with
    reservedOffset := 256, subnetLen := 24 }

theorem halvedConfig_made : Pool.ofConfig halvedConfig = .ok halved := rfl

def leases : LeaseAllocator := { layout := .standard }

def half (a : Address) : Subnet := .around a halved.subnetLen (by decide)

/-- A value that is no lease, under the key of the first subnet. -/
def garbled : Store := (Store.empty 100).write (leases.layout.subnetKey "green" (half 0x0A000000)) [0]

/-- A subnet next to the pool, and a lease of it that has ended. -/
def outside : Subnet := half 0x0A000200

def strayed : Store :=
  (Store.empty 100).write (leases.layout.subnetKey "green" outside) (LeasePool.record "me" 0)

/-- Whatever is to be deleted is found changed. -/
def meddled (s : Store) : (r : Request) → Option (r.Answer × Store)
  | .store (.compareAndDelete _ _) => some (.ok false, s)
  | r => s.attend r

/-- The subnet asked for cannot be created, and the only candidate is the other one. A lease outside of the
pool is written again if it has ended and its deletion finds it changed. -/
theorem second_half_is_placed : Pool.ofConfig halvedConfig = .ok halved ∧
    (∃ q s, Program.Asks Request.anyhow (leases.acquire halved "me" (some (half 0x0A000000))).outcome q ∧
      q.creates = some (leases.layout.subnetKey "green" s) ∧ s = half 0x0A000100 ∧
      halved.bounds.containsRange s.range = true ∧ halved.firstCandidate ≤ s.network.toUInt64) ∧
    ∃ h q, Program.Reaches (leases.acquire halved "me" none) h q ∧
      q.puts = some (leases.layout.subnetKey "green" outside) ∧
      halved.bounds.containsRange outside.range = false ∧
      ∃ now e since d, leases.Listed halved now e since h ∧
        SubnetClaim.ofEntry leases.layout e = .ok d ∧ d.owner = "me" ∧ d.subnet = outside ∧
        d.isExpired now = true ∧
        (⟨.store (.compareAndDelete e.key e.modified), .ok false⟩ : Exchange) ∈ since := by
  obtain ⟨_, _, created, put⟩ := placed_keys_keep_to_pool halvedConfig_made
  refine ⟨halvedConfig_made, ?_, ?_⟩
  · have run : Program.asked Request.creates Store.attend
        (leases.acquire halved "me" (some (half 0x0A000000))).outcome garbled =
        [leases.layout.subnetKey "green" (half 0x0A000000),
          leases.layout.subnetKey "green" (half 0x0A000100)] := by decide +kernel
    obtain ⟨q, creates, asks⟩ := Program.asks_of_mem_asked (run ▸ List.mem_cons_of_mem _
      List.mem_cons_self : leases.layout.subnetKey "green" (half 0x0A000100) ∈ _)
    obtain ⟨s, denotes, _, inside, first⟩ := created leases "me" (some (half 0x0A000000)) q _ asks creates
    obtain ⟨_, _, rfl⟩ := KeyLayout.parseSubnetKey_subnetKey_eq_some.1 denotes
    exact ⟨q, _, asks, creates, rfl, inside, first (by decide)⟩
  · have run : Program.asked Request.puts meddled (leases.acquire halved "me" none).outcome strayed =
        [leases.layout.subnetKey "green" outside] := by decide +kernel
    obtain ⟨q, puts, asks⟩ := Program.asks_of_mem_asked
      (run ▸ List.mem_cons_self : leases.layout.subnetKey "green" outside ∈ _)
    obtain ⟨h, reaches, _⟩ := asks.reaches
    obtain ⟨now, e, since, d, listed, read, own, key, fits⟩ := put leases "me" none h q _ reaches puts
    have denotes : leases.layout.parseSubnetKey (leases.layout.subnetKey "green" outside) =
        some ("green", outside) :=
      KeyLayout.parseSubnetKey_subnetKey_eq_some.2 ⟨rfl, Pool.ofConfig_named halvedConfig_made, rfl⟩
    rw [key] at denotes
    obtain ⟨_, _, same⟩ := KeyLayout.parseSubnetKey_subnetKey_eq_some.1 denotes
    have without : halved.bounds.containsRange outside.range = false := by decide
    refine ⟨h, q, reaches, puts, without, now, e, since, d, listed, read, own, same.symm, ?_⟩
    rcases fits with ⟨_, inside⟩ | changed
    · rw [← same, without] at inside
      cases inside
    · exact changed

/-- A subnet that the caller asks for is leased to him although the pool holds it back. -/
theorem first_half_is_leased : Pool.ofConfig halvedConfig = .ok halved ∧
    ((leases.acquire halved "me" (some (half 0x0A000000))).outcome.run Store.attend (.empty 100)).map
      (fun x => (x.1.toOption.map (·.subnet), x.2.entries.map (·.key))) =
        some (some (half 0x0A000000), [leases.layout.subnetKey "green" (half 0x0A000000)]) ∧
    (half 0x0A000000).network.toUInt64 < halved.firstCandidate :=
  ⟨halvedConfig_made, by decide +kernel, by decide⟩

end NetPool
