import NetPool.Proofs.Pin.Stable
import NetPool.Proofs.Sighting

/-! Pins that are removed: of a workload that is released, of workloads that are gone, and the one that a
caller has created for a workload that has an earlier one. All of them go by their keys, so what is
removed may be another workload's, pinned after the caller had looked. -/

namespace NetPool

inductive PinCall
  | assign (retry : Retry) (owner workload : String)
  | release (workload : String)
  | collect
deriving DecidableEq

namespace PinPool

variable (p : PinPool)

def program : PinCall → Program Unit
  | .assign retry owner workload =>
    ((p.allocator retry).assign p.pool owner workload).outcome.bind fun _ => .pure ()
  | .release workload =>
    (({ layout := p.layout } : PinAllocator).release p.pool workload).outcome.bind fun _ => .pure ()
  | .collect => (({ layout := p.layout } : PinAllocator).collect p.pool).outcome.bind fun _ => .pure ()

/-- By what its caller knows, a call has a reason to remove an entry. -/
def Reason (k : Knowledge) (d : KeyValue) : PinCall → Prop
  | .assign _ _ workload => k.made = some d ∧ p.Pins workload d
  | .release workload => d ∈ k.seen ∧ p.Pins workload d
  | .collect => d ∈ k.seen ∧ ∃ workload ∈ k.gone, p.Pins workload d

/-- The key by which the claim in an entry is removed. -/
def Under (d : KeyValue) (key : String) : Prop :=
  ∃ c, FixedClaim.ofEntry p.layout d = .ok c ∧ key = p.key c.address

def grounds (call : PinCall) : Sighting.Grounds := fun k d key => p.Reason k d call ∧ p.Under d key

variable {p} {ι : Type} [DecidableEq ι] {i : ι} {s t : Sighting ι} {w : String} {a : Address}

theorem pool_of_below {e : KeyValue} {c : FixedClaim} (below : startsWith e.key p.start = true)
    (read : FixedClaim.ofEntry p.layout e = .ok c) : c.pool = p.pool.name := by
  have slot := (FixedClaim.ofEntry_eq_ok.1 read).1
  simp only [KeyLayout.parseFixedKey, bind, Option.bind_eq_some_iff, Prod.exists] at slot
  obtain ⟨pool, _, parts, _, _, same⟩ := slot
  rw [← (Prod.mk.inj (Option.some.inj same)).1, (KeyLayout.claimParts?_pool below parts).1,
    String.ofList_toList]

/-! A call that pins an address. The one entry that it may remove is the one it has created. -/

/-- The entry that the caller has created last pins the address to the workload. -/
def Made (p : PinPool) (w : String) (a : Address) (k : Knowledge) : Prop :=
  ∃ d, k.made = some d ∧ d.key = p.key a ∧ p.Pins w d

theorem made_created {k : Knowledge} {store after : Store} {owner : String} {revision : Nat}
    (dated : store.Dated)
    (answer : store.Answered (.create (p.key a) (record owner w)) (.ok (.created revision)) after) :
    p.Made w a (k.learn after (.store (.create (p.key a) (record owner w))) (.ok (.created revision))) := by
  obtain ⟨_, rfl⟩ := answer.created
  refine ⟨store.written (p.key a) (record owner w), ?_, rfl, pins_record rfl rfl⟩
  change (store.write _ _).find? _ = _
  rw [Store.find?_write dated.ascending, if_pos rfl]

theorem made_removed {k : Knowledge} (retry : Retry) (owner : String) (made : p.Made w a k) :
    ∃ d ∈ k.entries, p.grounds (.assign retry owner w) k d (p.key a) := by
  obtain ⟨d, last, key, pins⟩ := made
  obtain ⟨c, read, _⟩ := pins.read
  exact ⟨d, Knowledge.mem_entries.2 (.inl last), ⟨last, pins⟩, c, read,
    congrArg p.key (Pinning.address_of_key key read).symm⟩

open Sighting

def outline (p : PinPool) (i : ι) (retry : Retry) (owner w : String) :
    PinAllocator.Outline (terms (p.grounds (.assign retry owner w)) i) (p.allocator retry) p.pool owner w where
  idle _ := True
  scanned _ _ := True
  made a s := p.Made w a (s.known i)
  surveyed a _ s := p.Made w a (s.known i)
  done _ _ := True
  idle_stays _ := id
  scanned_stays _ _ _ _ := id
  made_stays _ := stable
  surveyed_stays _ _ := stable
  done_stays _ _ _ _ := id
  scans {s y t} sound _ answer := by
    obtain ⟨valid, done⟩ := asked sound answer (answer.removes_nothing sound rfl)
    exact ⟨valid, done, by cases y <;> trivial⟩
  finds _ _ _ := trivial
  unfound := id
  picks sound _ answer := by
    obtain ⟨valid, done⟩ := asked sound answer (answer.removes_nothing sound rfl)
    exact ⟨valid, done, trivial⟩
  creates {x s y t} sound _ answer := by
    obtain ⟨valid, done⟩ := asked sound answer (answer.removes_nothing sound rfl)
    refine ⟨valid, done, ?_⟩
    cases y with
    | error => trivial
    | ok outcome =>
      cases outcome with
      | alreadyExists => trivial
      | created revision =>
        change p.Made w x (t.known i)
        exact answer.known ▸ made_created sound.dated answer.1
  surveys {x s y t} sound made answer := by
    obtain ⟨valid, done⟩ := asked sound answer (answer.removes_nothing sound rfl)
    refine ⟨valid, done, ?_⟩
    cases y with
    | error => trivial
    | ok found =>
      change p.Made w x (t.known i)
      exact answer.known ▸ made
  keeps _ _ _ := trivial
  withdraws {x pins c s y t} sound made _ _ answer := by
    obtain ⟨d, known, reason⟩ := made_removed retry owner made
    obtain ⟨valid, done⟩ := asked sound answer (answer.removes known reason)
    exact ⟨valid, done, by cases y <;> trivial⟩
  sleeps sound _ answer := by
    obtain ⟨valid, done⟩ := asked sound answer (answer.removes_nothing sound rfl)
    exact ⟨valid, done, trivial⟩

/-! Calls that read the claims of the pool, and go through them one by one. -/

/-- The claims are those of entries that the caller has read last. -/
def Listed (p : PinPool) (claims : List FixedClaim) (k : Knowledge) : Prop :=
  ∀ c ∈ claims, ∃ d ∈ k.seen, startsWith d.key p.start = true ∧ FixedClaim.ofEntry p.layout d = .ok c

theorem listed {k : Knowledge} {store after : Store} {found : Snapshot} (dated : store.Dated)
    (answer : store.Answered (.range p.start) (.ok found) after) :
    p.Listed (decodeClaims (FixedClaim.ofEntry p.layout) found.entries)
      (k.learn after (.store (.range p.start)) (.ok found)) := by
  intro c mem
  obtain ⟨d, here, read⟩ := mem_decodeClaims.1 mem
  refine ⟨d, here, ?_, read⟩
  rw [answer.range dated] at here
  exact (List.mem_filter.1 here).2

theorem Listed.under {k : Knowledge} {claims : List FixedClaim} {c : FixedClaim} (listed : p.Listed claims k)
    (mem : c ∈ claims) : ∃ d ∈ k.seen, p.Pins c.workload d ∧
      p.Under d (p.layout.fixedKey c.pool c.address) := by
  obtain ⟨d, seen, below, read⟩ := listed c mem
  refine ⟨d, seen, ⟨below, c, read, rfl⟩, c, read, ?_⟩
  rw [pool_of_below below read]
  rfl

/-- What a call goes through is read first. -/
theorem each_safe {β : Type} {call : PinCall} {f : β → FixedClaim → Operation β} {b : β}
    (each : ∀ claims, ∀ c ∈ claims, ∀ b (s : Sighting ι), s.Sound → p.Listed claims (s.known i) →
      Safe (terms (p.grounds call) i) (fun _ t => p.Listed claims (t.known i)) (f b c) s) :
    Safe (terms (p.grounds call) i) (fun _ _ => True)
      (({ layout := p.layout } : PinAllocator).claims p.pool.name >>= fun claims => claims.foldlM f b :
        Operation β) s := by
  rw [PinAllocator.claims, Operation.readClaims_bind]
  refine stored (fun found => p.Listed (decodeClaims (FixedClaim.ofEntry p.layout) found.entries))
    (fun _ sound answer => answer.removes_nothing sound rfl) (fun {t x u} _ sound answer =>
      answer.known ▸ listed sound.dated answer.1) fun {found u} sound listed => ?_
  have stays : (terms (p.grounds call) i).Stable fun t =>
    p.Listed (decodeClaims (FixedClaim.ofEntry p.layout) found.entries) (t.known i) := stable
  exact (Safe.foldlM stays (each _) sound listed).weaken fun _ _ _ _ => trivial

theorem delete_safe {β : Type} {call : PinCall} {claims : List FixedClaim} {c : FixedClaim}
    (mem : c ∈ claims) {f : Bool → Operation β} (returns : ∀ gone, ∃ x, f gone = (.pure x : Program _))
    (listed : p.Listed claims (s.known i))
    (reason : ∀ d ∈ (s.known i).seen, p.Pins c.workload d → p.Reason (s.known i) d call) :
    Safe (terms (p.grounds call) i) (fun _ t => p.Listed claims (t.known i))
      (Operation.store (.delete (p.layout.fixedKey c.pool c.address)) >>= f : Operation β) s := by
  rw [Operation.store_bind]
  intro t (rely : t.known i = s.known i) sound x u answer
  rw [← rely] at listed reason
  obtain ⟨d, seen, pins, under⟩ := listed.under mem
  have removes : Removes (p.grounds call) i t _ u :=
    answer.removes (Knowledge.mem_entries.2 (.inr seen)) ⟨reason d seen pins, under⟩
  obtain ⟨valid, done⟩ := asked sound answer removes
  refine ⟨valid, done, ?_⟩
  have still : p.Listed claims (u.known i) := answer.known ▸ listed
  cases x with
  | error e => exact fun v rely _ => stable rely still
  | ok gone =>
    obtain ⟨y, same⟩ := returns gone
    change Safe _ _ (f gone) u
    rw [same]
    exact fun v rely _ => stable rely still

theorem release_safe : Safe (terms (p.grounds (.release w)) i) (fun _ _ => True)
    (({ layout := p.layout } : PinAllocator).release p.pool w) s := by
  refine each_safe fun claims c mem b s sound listed => ?_
  dsimp only
  split
  · rename_i same
    exact delete_safe mem (fun _ => ⟨_, rfl⟩) listed fun d seen pins => ⟨seen, same ▸ pins⟩
  · exact fun t rely _ => stable rely listed

theorem collect_safe : Safe (terms (p.grounds .collect) i) (fun _ _ => True)
    (({ layout := p.layout } : PinAllocator).collect p.pool) s := by
  refine each_safe fun claims c mem n s sound listed => ?_
  intro t (rely : t.known i = s.known i) sound live u answer
  have removes : Removes (p.grounds .collect) i t _ u := answer.removes_nothing sound rfl
  obtain ⟨valid, done⟩ := asked sound answer removes
  refine ⟨valid, done, ?_⟩
  rw [← rely] at listed
  cases live with
  | true =>
    have still : p.Listed claims (u.known i) := answer.known ▸ listed
    exact fun v rely _ => stable rely still
  | false =>
    have known : u.known i = { t.known i with gone := c.workload :: (t.known i).gone } := answer.known
    refine delete_safe mem (f := fun gone => if gone then pure (n + 1) else pure n)
      (fun gone => by cases gone <;> exact ⟨_, rfl⟩) (known ▸ listed) fun d seen pins => ?_
    rw [known] at seen ⊢
    exact ⟨seen, c.workload, List.mem_cons_self, pins⟩

theorem program_safe (call : PinCall) (i : ι) (s : Sighting ι) (sound : s.Sound) :
    Safe (terms (p.grounds call) i) (fun _ _ => True) (p.program call) s := by
  have last {β : Type} {o : Operation β} {s : Sighting ι} (sound : s.Sound)
      (safe : Safe (terms (p.grounds call) i) (fun _ _ => True) o s) :
      Safe (terms (p.grounds call) i) (fun _ _ => True) (o.outcome.bind fun _ => .pure ()) s :=
    Safe.bind safe sound fun _ _ _ _ _ _ _ => trivial
  cases call with
  | assign retry owner w =>
    refine last sound (Safe.bind ((outline p i retry owner w).claim_safe sound trivial) sound ?_)
    rintro (e | c) t - - u - -
    · trivial
    · trivial
  | release w => exact last sound release_safe
  | collect => exact last sound collect_safe

/-- Any number of callers pin, release and collect addresses of one pool, whatever else happens to the
store. An entry that one of them removes is the one by which he had a reason, and so pins the workload
that is released, or gone, or to be pinned elsewhere; unless it was written under the key after that one
had gone, or the other had a key that is spelt in another way. -/
theorem removed_pins {duty : ι → PinCall} (sound : s.Sound) {c : Scene (Sighting ι) ι PinCall Unit}
    (reached : Scene.Reached (Sighting.stage p.program duty) s c) {call : PinCall} {r : Request}
    {next : r.Answer → Program Unit} (waits : c.running i = some (call, .ask r next)) {x : r.Answer}
    (answer : Answers i c.shared r x t) {e : KeyValue} (mem : e ∈ c.shared.store.entries)
    (gone : e ∉ t.store.entries) :
    r = .store (.delete e.key) ∧ ∃ d claim, p.Reason (c.shared.known i) d call ∧
      FixedClaim.ofEntry p.layout d = .ok claim ∧ e.key = p.key claim.address ∧
      (e.key = d.key → e = d ∨ c.shared.store.Replaced d e) := by
  obtain ⟨request, d, _, ⟨reason, claim, read, key⟩, same⟩ :=
    removed_for_reason program_safe sound reached waits answer mem gone
  exact ⟨request, d, claim, reason, read, key, same⟩

/-! A caller is named by his call. The first free address is picked, and no workload is alive. -/

def ofFirst (owner workload : String) (revision : Nat) : KeyValue :=
  ⟨green.key 0x0A000000, record owner workload, revision, revision⟩

def first (bound : Nat) : Fin (bound + 1) := ⟨0, bound.succ_pos⟩

def left : Bool × PinCall := (false, .assign ⟨5, 20⟩ "left" "web")

def right : Bool × PinCall := (true, .assign ⟨5, 20⟩ "right" "db")

def collector : Bool × PinCall := (false, .collect)

def releaser (second : Bool) : Bool × PinCall := (second, .release "web")

theorem gone_workload_collected : (blank : Sighting (Bool × PinCall)).Sound ∧ ∃ c r next x t,
    Scene.Reached (Sighting.stage green.program Prod.snd) blank c ∧
    c.running collector = some (.collect, .ask r next) ∧ Answers collector c.shared r x t ∧
    ofFirst "left" "web" 1 ∈ c.shared.store.entries ∧ ofFirst "left" "web" 1 ∉ t.store.entries ∧
    r = .store (.delete (ofFirst "left" "web" 1).key) ∧ ∃ d claim,
      green.Reason (c.shared.known collector) d .collect ∧ FixedClaim.ofEntry green.layout d = .ok claim ∧
      (ofFirst "left" "web" 1).key = green.key claim.address ∧
      ((ofFirst "left" "web" 1).key = d.key →
        ofFirst "left" "web" 1 = d ∨ c.shared.store.Replaced d (ofFirst "left" "web" 1)) := by
  obtain ⟨c, r, next, x, t, reached, waits, answer, mem, gone⟩ := removal_played green.program Prod.snd
    blank first (fun _ => false) [.call left left.2, .answer left, .answer left, .answer left,
      .answer left, .finish left, .call collector .collect, .answer collector, .answer collector]
    collector (ofFirst "left" "web" 1) (by decide +kernel) (by decide +kernel)
  exact ⟨blank_sound, c, r, next, x, t, reached, waits, answer, mem, gone,
    removed_pins blank_sound reached waits answer mem gone⟩

/-- While a caller is about to release a workload, another one has released it, and the address went to
another workload. -/
theorem other_workload_released : ∃ c r next x t,
    Scene.Reached (Sighting.stage green.program Prod.snd) (blank : Sighting (Bool × PinCall)) c ∧
    c.running (releaser true) = some (.release "web", .ask r next) ∧
    Answers (releaser true) c.shared r x t ∧
    ofFirst "right" "db" 3 ∈ c.shared.store.entries ∧ ofFirst "right" "db" 3 ∉ t.store.entries ∧
    green.Pins "db" (ofFirst "right" "db" 3) ∧ ¬ green.Pins "web" (ofFirst "right" "db" 3) := by
  obtain ⟨c, r, next, x, t, reached, waits, answer, mem, gone⟩ := removal_played green.program Prod.snd
    blank first (fun _ => false) [.call left left.2, .answer left, .answer left, .answer left,
      .answer left, .finish left, .call (releaser true) (releaser true).2, .answer (releaser true),
      .call (releaser false) (releaser false).2, .answer (releaser false), .answer (releaser false),
      .finish (releaser false), .call right right.2, .answer right, .answer right, .answer right,
      .answer right, .finish right]
    (releaser true) (ofFirst "right" "db" 3) (by decide +kernel) (by decide +kernel)
  have pins : green.Pins "db" (ofFirst "right" "db" 3) := pins_record rfl rfl
  exact ⟨c, r, next, x, t, reached, waits, answer, mem, gone, pins,
    fun web => absurd (pins.unique web) (by decide)⟩

end PinPool

end NetPool
