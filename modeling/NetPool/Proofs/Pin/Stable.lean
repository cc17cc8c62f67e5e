import NetPool.Proofs.Pin.Outline
import NetPool.Proofs.Pin.Pinning

/-! All calls for one workload come to one address, and it stays the workload's. -/

namespace NetPool

/-- A call: how often it tries, for which node, and the workload. -/
structure Assignment where
  retry : Retry
  owner : String
  workload : String
deriving DecidableEq

namespace PinPool

variable {ι : Type} [DecidableEq ι]

def allocator (p : PinPool) (retry : Retry) : PinAllocator := ⟨p.layout, retry⟩

/-- Callers that have addresses assigned; what a call comes to is the address, if there is one. -/
def stage (p : PinPool) : Stage (Pinning ι) ι Assignment (Option Address) where
  program k := ((p.allocator k.retry).assign p.pool k.owner k.workload).outcome.bind fun x =>
    .pure x.toOption
  allowed _ _ := True
  answers := Pinning.Answers
  moves _ _ := False

/-- The address counts as that of the workload. -/
def Pinned (p : PinPool) (workload : String) (a : Address) (s : Pinning ι) : Prop :=
  ∃ e c, p.First s.store.entries workload e ∧ FixedClaim.ofEntry p.layout e = .ok c ∧ c.address = a

def pinning (p : PinPool) : Agreement (p.stage (ι := ι)) where
  valid := Pinning.Sound p
  rely := Pinning.Rely p
  does _ s _ t := ∀ w e, p.First s.store.entries w e → p.First t.store.entries w e
  idle _ _ := True
  fact k a s := ∀ b ∈ a, p.Pinned k.workload b s
  refl := Pinning.Rely.refl
  trans := Pinning.Rely.trans
  idle_rely _ _ := trivial
  lasts does pinned b mem := by
    obtain ⟨e, c, first, here⟩ := pinned b mem
    exact ⟨e, c, does _ e first, here⟩
  moves _ := nofun

end PinPool

namespace Pinning

open PinPool

variable {ι : Type} [DecidableEq ι] {p : PinPool} {i : ι} {s t : Pinning ι} {w owner : String} {a : Address}
  {c : FixedClaim}

omit [DecidableEq ι] in
theorem Rely.pinned (rely : Rely p i s t) (pinned : p.Pinned w a s) : p.Pinned w a t := by
  obtain ⟨e, c, first, here⟩ := pinned
  exact ⟨e, c, rely.lasts w e first, here⟩

/-- The claim that counts for a workload. -/
def Counts (p : PinPool) (w : String) (c : FixedClaim) (s : Pinning ι) : Prop :=
  ∃ e, p.First s.store.entries w e ∧ FixedClaim.ofEntry p.layout e = .ok c

omit [DecidableEq ι] in
theorem Counts.stays (lasts : ∀ w e, p.First s.store.entries w e → p.First t.store.entries w e)
    (counts : Counts p w c s) : Counts p w c t := by
  obtain ⟨e, first, read⟩ := counts
  exact ⟨e, lasts w e first, read⟩

omit [DecidableEq ι] in
theorem Counts.pinned (counts : Counts p w c s) : p.Pinned w c.address s := by
  obtain ⟨e, first, read⟩ := counts
  exact ⟨e, c, first, read, rfl⟩

omit [DecidableEq ι] in
theorem address_of_key {e : KeyValue} (key : e.key = p.key a) (read : FixedClaim.ofEntry p.layout e = .ok c) :
    c.address = a := by
  have slot := (FixedClaim.ofEntry_eq_ok.1 read).1
  rw [key] at slot
  exact (KeyLayout.parseFixedKey_fixedKey_eq_some.1 slot).2.2

/-- A caller has created a claim, and may find that another one counts. -/
structure Claimed (p : PinPool) (i : ι) (w : String) (a : Address) (s : Pinning ι) : Prop where
  own : s.own i = some (p.key a)
  entry : ∃ e ∈ s.store.entries, e.key = p.key a ∧ p.Pins w e

omit [DecidableEq ι] in
theorem Claimed.stays (claimed : Claimed p i w a s) (rely : Rely p i s t) : Claimed p i w a t := by
  obtain ⟨e, mem, key, pins⟩ := claimed.entry
  exact ⟨rely.own.trans claimed.own, e, rely.kept e mem (key ▸ claimed.own), key, pins⟩

/-! What is known after each request of a call. -/

theorem Claimed.created {revision : Nat} (ascending : Store.Ascending s.store.entries)
    (answer : Answers i s (.store (.create (p.key a) (record owner w))) (.ok (.created revision)) t) :
    Claimed p i w a t := by
  rcases answer with ⟨served, rfl⟩ | ⟨⟨_, lost⟩, _⟩
  · refine ⟨own_served, s.store.written (p.key a) (record owner w), ?_, rfl, pins_record rfl rfl⟩
    exact (Store.serve_created served).2 ▸ (Store.mem_write ascending).2 (.inl rfl)
  · cases lost

/-- The pins that were read are those that there are. -/
theorem listed {found : Snapshot} (ascending : Store.Ascending s.store.entries)
    (answer : Answers i s (.store (.range p.start)) (.ok found) t) :
    found.entries = t.store.entries.filter (startsWith ·.key p.start) := by
  rw [(answer.unwritten rfl).1]
  rcases answer with ⟨served, _⟩ | ⟨⟨_, lost⟩, _⟩
  · exact Store.range_found ascending served
  · cases lost

/-- The claim chosen among the pins that were read is the one that counts. -/
theorem chosen {found : Snapshot} (ascending : Store.Ascending s.store.entries)
    (answer : Answers i s (.store (.range p.start)) (.ok found) t)
    (pinned : PinAllocator.pinned w (decodeClaims (PinAllocator.pinOf p.layout) found.entries) = some c) :
    Counts p w c t := by
  rw [listed ascending answer] at pinned
  exact PinAllocator.pinned_eq_some ((answer.unwritten rfl).1.symm ▸ ascending) pinned

/-- Who has created a claim and reads the pins finds one that counts. -/
theorem Claimed.finds {found : Snapshot} (ascending : Store.Ascending s.store.entries)
    (claimed : Claimed p i w a s) (answer : Answers i s (.store (.range p.start)) (.ok found) t) :
    Claimed p i w a t ∧ ∃ c, PinAllocator.pinned w
      (decodeClaims (PinAllocator.pinOf p.layout) found.entries) = some c ∧ Counts p w c t := by
  obtain ⟨entries, own⟩ := answer.unwritten rfl
  obtain ⟨mine, mem, key, pins⟩ := claimed.entry
  have here : mine ∈ t.store.entries := entries ▸ mem
  obtain ⟨c, found⟩ := Option.ne_none_iff_exists'.1 (PinAllocator.pinned_of_pins here pins)
  rw [← listed ascending answer] at found
  exact ⟨⟨own ▸ claimed.own, mine, here, key, pins⟩, c, found, chosen ascending answer found⟩

omit [DecidableEq ι] in
/-- He may delete his own claim if another one counts. -/
theorem Claimed.withdraws (claimed : Claimed p i w a s) (counts : Counts p w c s) (other : c.address ≠ a) :
    s.Intends p i (.delete (p.key a)) := by
  obtain ⟨e, first, read⟩ := counts
  obtain ⟨mine, mem, key, pins⟩ := claimed.entry
  exact ⟨claimed.own, w, mine, e, mem, key, pins, first, fun same => other (address_of_key same read)⟩

theorem steps {r : StoreRequest} {x : Except StoreError r.Result} (sound : Sound p s)
    (answer : Answers i s (.store r) x t) (intends : s.Intends p i r) :
    (p.pinning.terms i).valid t ∧ (p.pinning.terms i).guarantee s (.store r) t :=
  ⟨sound.answered answer intends, fun _ _ => (answer.effect sound.orderly intends).first sound.orderly,
    fun _ other => answer.rely sound.orderly intends other⟩

theorem stands_still {r : Request} (sound : Sound p s) (same : t = s) :
    (p.pinning.terms i).valid t ∧ (p.pinning.terms i).guarantee s r t ∧ True := by
  subst same
  exact ⟨sound, ⟨fun _ _ => id, fun j _ => Rely.refl j _⟩, trivial⟩

/-- What is known in the course of a call. -/
def outline (p : PinPool) (i : ι) (retry : Retry) (owner w : String) :
    PinAllocator.Outline (p.pinning.terms i) (p.allocator retry) p.pool owner w where
  idle _ := True
  scanned pins s := ∀ c, PinAllocator.pinned w pins = some c → Counts p w c s
  made a := Claimed p i w a
  surveyed a pins s := Claimed p i w a s ∧ ∃ c, PinAllocator.pinned w pins = some c ∧ Counts p w c s
  done c := p.Pinned w c.address
  idle_stays _ := id
  scanned_stays _ _ _ rely all c found := (all c found).stays rely.lasts
  made_stays _ _ _ rely claimed := claimed.stays rely
  surveyed_stays _ _ _ _ rely := And.imp (·.stays rely) fun ⟨c, found, counts⟩ =>
    ⟨c, found, counts.stays rely.lasts⟩
  done_stays _ _ _ := Rely.pinned
  scans {s y t} sound _ answer := by
    obtain ⟨valid, does⟩ := steps sound answer trivial
    refine ⟨valid, does, ?_⟩
    cases y with
    | error => trivial
    | ok found => exact fun c pinned => chosen sound.ascending answer pinned
  finds _ scanned found := (scanned _ found).pinned
  unfound _ := trivial
  picks sound _ := stands_still sound
  creates {x s y t} sound _ answer := by
    obtain ⟨valid, does⟩ := steps sound answer ⟨x, owner, w, rfl, rfl⟩
    refine ⟨valid, does, ?_⟩
    cases y with
    | error => trivial
    | ok outcome =>
      cases outcome with
      | alreadyExists => trivial
      | created => exact Claimed.created sound.ascending answer
  surveys {x s y t} sound claimed answer := by
    obtain ⟨valid, does⟩ := steps sound answer trivial
    refine ⟨valid, does, ?_⟩
    cases y with
    | error => trivial
    | ok found => exact claimed.finds sound.ascending answer
  keeps _ surveyed own := by
    obtain ⟨_, c, found, counts⟩ := surveyed
    exact own c found ▸ counts.pinned
  withdraws {x pins c s y t} sound surveyed found other answer := by
    obtain ⟨claimed, d, same, counts⟩ := surveyed
    cases found.symm.trans same
    obtain ⟨valid, does⟩ := steps sound answer (claimed.withdraws counts other)
    refine ⟨valid, does, ?_⟩
    cases y with
    | error => trivial
    | ok => exact (counts.stays does.1).pinned
  sleeps sound _ := stands_still sound

end Pinning

namespace PinPool

variable {ι : Type} [DecidableEq ι] {p : PinPool} {s : Pinning ι}

theorem program_eq (p : PinPool) (k : Assignment) : (p.stage (ι := ι)).program k =
    Program.bind ((p.allocator k.retry).claim p.pool k.owner k.workload) fun x =>
      .pure (x.toOption.map (·.address)) := by
  change Program.bind (Program.bind _ _) _ = _
  rw [Program.bind_assoc]
  congr 1
  funext x
  cases x <;> rfl

theorem pinning_kept (p : PinPool) : (pinning (ι := ι) p).Kept := by
  intro i k s _ sound _
  rw [program_eq]
  refine Safe.bind ((Pinning.outline p i k.retry k.owner k.workload).claim_safe sound trivial) sound
    fun x t _ pinned u rely _ => ⟨trivial, fun a mem => ?_⟩
  cases x with
  | error => cases mem
  | ok c =>
    cases mem
    exact Pinning.Rely.pinned rely pinned

/-- Nobody has created anything yet, and the claims of the pool stand under their own keys. -/
structure Fresh (p : PinPool) (s : Pinning ι) : Prop where
  ascending : Store.Ascending s.store.entries
  dated : ∀ e ∈ s.store.entries, e.created ≤ s.store.revision
  canonical : ∀ e ∈ s.store.entries, startsWith e.key p.start = true →
    ∀ c, FixedClaim.ofEntry p.layout e = .ok c → p.key c.address = e.key
  own : ∀ i, s.own i = none

omit [DecidableEq ι] in
theorem Fresh.sound (fresh : p.Fresh s) : Pinning.Sound p s := by
  have nobody {i : ι} {key : String} (own : s.own i = some key) : False := by
    rw [fresh.own i] at own
    cases own
  exact ⟨fresh.ascending, fresh.dated, fresh.canonical, fun i key own => (nobody own).elim,
    fun i j key own => (nobody own).elim⟩

/-- An address that is assigned to a workload is recorded as its own from then on; two calls come to one
address if and only if they are for one workload. -/
theorem assignments_stable {c : Scene (Pinning ι) ι Assignment (Option Address)} (fresh : p.Fresh s)
    (reached : Scene.Reached p.stage s c) :
    (∀ i k a, (i, k, some a) ∈ c.returned → ∃ e claim, c.shared.store.find? (p.key a) = some e ∧
      FixedClaim.ofEntry p.layout e = .ok claim ∧ claim.pool = p.pool.name ∧ claim.address = a ∧
      claim.workload = k.workload) ∧
    ∀ i k a j h b, (i, k, some a) ∈ c.returned → (j, h, some b) ∈ c.returned →
      (a = b ↔ k.workload = h.workload) := by
  have right := Agreement.reached_right (pinning_kept p) fresh.sound (fun _ => trivial) reached
  have sound : Pinning.Sound p c.shared := right.valid
  have counts {i k a} (mem : (i, k, some a) ∈ c.returned) : ∃ e claim,
      p.First c.shared.store.entries k.workload e ∧ e.key = p.key a ∧
      FixedClaim.ofEntry p.layout e = .ok claim ∧ claim.address = a := by
    obtain ⟨e, claim, first, read, rfl⟩ := right.returned i k (some a) mem a rfl
    exact ⟨e, claim, first, (sound.canonical e first.mem first.pins.below claim read).symm, read, rfl⟩
  refine ⟨fun i k a mem => ?_, fun i k a j h b one other => ?_⟩
  · obtain ⟨e, claim, first, key, read, address⟩ := counts mem
    obtain ⟨same, readE, work⟩ := first.pins.read
    cases read.symm.trans readE
    refine ⟨e, claim, (Store.find?_eq_some_iff sound.ascending).2 ⟨first.mem, key⟩, read, ?_, address, work⟩
    have slot := (FixedClaim.ofEntry_eq_ok.1 read).1
    rw [key] at slot
    exact (KeyLayout.parseFixedKey_fixedKey_eq_some.1 slot).1
  · obtain ⟨e, claim, first, keyE, read, rfl⟩ := counts one
    obtain ⟨f, also, counted, keyF, readF, rfl⟩ := counts other
    constructor
    · intro same
      -- One entry pins one workload.
      cases sound.ascending.eq_of_key first.mem counted.mem (keyE.trans (same ▸ keyF.symm))
      exact first.pins.unique counted.pins
    · intro same
      cases first.unique sound.ascending (same ▸ counted)
      cases read.symm.trans readF
      rfl

/-! Two callers pin one workload at once. The second one finds that the other's claim counts and deletes
his own; then that address goes to another workload. -/

def greenConfig : PoolConfig where
  name := "green"
  kind := .fixed
  subnet := "10.0.0.0/31"
  rangeStart := none
  rangeEnd := none
  gateway := none
  reservedOffset := 0
  blockExp := none
  subnetLen := none
  previousSubnet := none

theorem greenConfig_made : Pool.ofConfig greenConfig =
    .ok (.covering "green" .fixed (.around 0x0A000000 31 (by decide))) := rfl

def green : PinPool := .ofConfig .standard greenConfig_made

def opened : Pinning Bool := ⟨.empty 100, fun _ => none⟩

def assigning (owner workload : String) : Assignment := ⟨⟨5, 20⟩, owner, workload⟩

/-- The second caller picks the first free address, the other one the last. -/
def ends (i : Bool) (bound : Nat) : Fin (bound + 1) := if i then ⟨0, bound.succ_pos⟩ else Fin.last bound

theorem opened_fresh : green.Fresh opened := by
  refine ⟨.nil, ?_, ?_, fun _ => rfl⟩
  · rintro e ⟨⟩
  · rintro e ⟨⟩

theorem racing_assignments_stable : green.Fresh opened ∧ ∃ c, Scene.Reached green.stage opened c ∧
    c.returned = [(true, assigning "right" "db", some 0x0A000000),
      (false, assigning "left" "web", some 0x0A000001),
      (true, assigning "right" "web", some 0x0A000001)] ∧
    (∃ e claim, c.shared.store.find? (green.key 0x0A000001) = some e ∧
      FixedClaim.ofEntry green.layout e = .ok claim ∧ claim.pool = "green" ∧
      claim.address = 0x0A000001 ∧ claim.workload = "web") ∧
    ((0x0A000000 : Address) = 0x0A000001 ↔ "db" = "web") := by
  have run : ((Scene.opening opened).play green.stage (Pinning.reply ends)
      [.call false (assigning "left" "web"), .call true (assigning "right" "web"), .answer false,
        .answer true, .answer false, .answer true, .answer false, .answer true, .answer true,
        .answer true, .finish true, .answer false, .finish false, .call true (assigning "right" "db"),
        .answer true, .answer true, .answer true, .answer true, .finish true]).map (·.returned) =
      some [(true, assigning "right" "db", some 0x0A000000),
        (false, assigning "left" "web", some 0x0A000001),
        (true, assigning "right" "web", some 0x0A000001)] := by decide +kernel
  obtain ⟨c, played, returned⟩ := Option.map_eq_some_iff.1 run
  have reached : Scene.Reached green.stage opened c :=
    Scene.play_reached (fun _ => Pinning.reply_answers) (fun _ _ _ => trivial) .opening played
  obtain ⟨recorded, apart⟩ := assignments_stable opened_fresh reached
  refine ⟨opened_fresh, c, reached, returned, recorded false (assigning "left" "web") 0x0A000001 ?_,
    apart true (assigning "right" "db") 0x0A000000 false (assigning "left" "web") 0x0A000001 ?_ ?_⟩
  · simp [returned]
  · simp [returned]
  · simp [returned]

end PinPool

end NetPool
