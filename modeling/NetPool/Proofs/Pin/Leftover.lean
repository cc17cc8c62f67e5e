import NetPool.Proofs.Pin.Contest

/-! What a race for a workload leaves behind. -/

namespace NetPool

namespace PinPool

variable {ι : Type} [DecidableEq ι]

/-- Callers that have addresses assigned; what they abandon is written down. -/
def contest (p : PinPool) : Stage (Contest ι) ι Assignment (Option Address) where
  program := (p.stage (ι := ι)).program
  allowed _ _ := True
  answers := Contest.Answers
  moves _ _ := False

/-- What they keep, for one workload: what counts goes on to count, and who is between two calls is
settled. -/
def contending (p : PinPool) (w : String) : Agreement (p.contest (ι := ι)) where
  valid := Contest.Sound p w
  rely := Contest.Rely p
  does _ s _ t := ∀ v e, p.First s.store.entries v e → p.First t.store.entries v e
  idle := Contest.Settled p w
  fact k a s := ∀ b ∈ a, p.Pinned k.workload b s.toPinning
  refl := Contest.Rely.refl
  trans := Contest.Rely.trans
  idle_rely := Contest.Settled.stays
  lasts does fact b mem := by
    obtain ⟨e, c, first, here⟩ := fact b mem
    exact ⟨e, c, does _ e first, here⟩
  moves _ := nofun

end PinPool

namespace Contest

open PinPool

variable {ι : Type} [DecidableEq ι] {p : PinPool} {i : ι} {s t : Contest ι} {w v owner : String}
  {a : Address} {retry : Retry} {r : StoreRequest} {x : Except StoreError r.Result}

abbrev terms (p : PinPool) (w : String) (i : ι) : Terms (Contest ι) := (p.contending w).terms i

theorem steps (sound : Sound p w s) (means : Means p w i s r) (answer : Answers i s (.store r) x t) :
    (terms p w i).valid t ∧ (terms p w i).guarantee s (.store r) t :=
  ⟨sound.answered means answer, fun _ _ => (answer.1.effect sound.orderly means.pinning).first sound.orderly,
    fun _ other => sound.rely means answer other⟩

theorem stands_still {r : Request} {x : r.Answer} (sound : Sound p w s) (settled : Settled p w i s)
    (same : Pinning.Answers i s.toPinning r x t.toPinning → t.toPinning = s.toPinning)
    (plain : lost (claim? s.toPinning i) r x = []) (answer : Answers i s r x t) :
    (terms p w i).valid t ∧ (terms p w i).guarantee s r t ∧ Settled p w i t := by
  obtain ⟨pinning, abandoned⟩ := answer
  rw [plain] at abandoned
  have eq : t = s := by
    obtain ⟨t, _⟩ := t
    cases same pinning
    cases abandoned
    rfl
  subst eq
  exact ⟨sound, ⟨fun _ _ => id, fun j _ => Rely.refl j _⟩, settled⟩

omit [DecidableEq ι] in
theorem reads (p : PinPool) (w : String) (i : ι) (s : Contest ι) : Means p w i s (.range p.start) :=
  ⟨trivial, nofun, nofun⟩

omit [DecidableEq ι] in
theorem creating (settled : Settled p w i s) : Means p w i s (.create (p.key a) (record owner v)) :=
  ⟨⟨a, owner, v, rfl, rfl⟩, fun _ => settled, nofun⟩

theorem scans (sound : Sound p w s) (settled : Settled p w i s) {x : Except StoreError Snapshot}
    (answer : Answers i s (.store (.range p.start)) x t) :
    Safe.Outcome (fun found t => Settled p w i t ∧ ∀ c, PinAllocator.pinned v
      (decodeClaims (PinAllocator.pinOf p.layout) found.entries) = some c → Pinning.Counts p v c t.toPinning)
      (Settled p w i) x t := by
  cases x with
  | error e => exact answer.failed sound.orderly
  | ok found =>
    obtain ⟨entries, own⟩ := answer.1.unwritten rfl
    have abandoned : t.abandoned = s.abandoned := answer.2
    exact ⟨settled.unwritten entries own (abandoned ▸ fun _ => id),
      fun c pinned => Pinning.chosen sound.orderly.ascending answer.1 pinned⟩

/-- Who reads the pins again finds his own among them. -/
theorem surveys (sound : Sound p w s) (claimed : Claimed p i v a s) {x : Except StoreError Snapshot}
    (answer : Answers i s (.store (.range p.start)) x t) :
    Safe.Outcome (fun found t => Claimed p i v a t ∧ ∃ c, PinAllocator.pinned v
      (decodeClaims (PinAllocator.pinOf p.layout) found.entries) = some c ∧ Pinning.Counts p v c t.toPinning)
      (Settled p w i) x t := by
  cases x with
  | error e => exact answer.failed sound.orderly
  | ok found =>
    obtain ⟨mine, counts⟩ := claimed.claimed.finds sound.orderly.ascending answer.1
    have abandoned : t.abandoned = s.abandoned := answer.2
    exact ⟨⟨mine, abandoned ▸ claimed.held⟩, counts⟩

theorem creates (sound : Sound p w s) (settled : Settled p w i s) {x : Except StoreError Creation}
    (answer : Answers i s (.store (.create (p.key a) (record owner v))) x t) :
    Safe.Outcome (PinAllocator.Created (Claimed p i v a) (Settled p w i)) (Settled p w i) x t := by
  cases x with
  | error e => exact answer.failed sound.orderly
  | ok outcome =>
    have abandoned : t.abandoned = s.abandoned := answer.2
    cases outcome with
    | alreadyExists =>
      obtain ⟨entries, own⟩ := answer.1.unwritten rfl
      exact settled.unwritten entries own (abandoned ▸ fun _ => id)
    | created revision =>
      refine ⟨.created sound.orderly.ascending answer.1, fun e mem key => ?_⟩
      -- The key was free, so no claim that somebody has abandoned stands under it.
      have here := sound.stands e (abandoned ▸ mem)
      have found := (Store.find?_eq_some_iff sound.orderly.ascending).2 ⟨here, key⟩
      rcases answer.1 with ⟨served, _⟩ | ⟨⟨e, error⟩, _⟩
      · rw [(Store.serve_created served).1] at found
        cases found
      · cases error

omit [DecidableEq ι] in
/-- The claim that was found to count is one's own. -/
theorem keeps {c : FixedClaim} (sound : Sound p w s) (claimed : Claimed p i v a s)
    (counts : Pinning.Counts p v c s.toPinning) (own : c.address = a) :
    Settled p w i s ∧ p.Pinned v a s.toPinning := by
  refine ⟨fun key mine => ?_, own ▸ counts.pinned⟩
  obtain ⟨e, first, read⟩ := counts
  obtain ⟨f, mem, key', pins⟩ := claimed.claimed.entry
  cases claimed.claimed.own.symm.trans mine
  refine ⟨f, mem, key', fun also => ?_⟩
  -- It pins the workload in question, or another one.
  cases also.unique pins
  obtain ⟨b, keyE⟩ := sound.canonical e first.mem first.pins
  cases (Pinning.address_of_key keyE read).symm.trans own
  cases sound.orderly.ascending.eq_of_key mem first.mem (key'.trans keyE.symm)
  exact .inl first

omit [DecidableEq ι] in
theorem withdrawal {c : FixedClaim} (claimed : Claimed p i v a s) (counts : Pinning.Counts p v c s.toPinning)
    (other : c.address ≠ a) : Means p w i s (.delete (p.key a)) :=
  ⟨claimed.claimed.withdraws counts other, nofun, fun _ f gone own =>
    claimed.held f gone (Option.some.inj (own.symm.trans claimed.claimed.own))⟩

theorem withdraws {c : FixedClaim} (sound : Sound p w s) (claimed : Claimed p i v a s)
    (counts : Pinning.Counts p v c t.toPinning)
    {x : Except StoreError Bool} (answer : Answers i s (.store (.delete (p.key a))) x t) :
    Safe.Outcome (fun _ t => Settled p w i t ∧ p.Pinned v c.address t.toPinning) (Settled p w i) x t := by
  cases x with
  | error e => exact answer.failed sound.orderly
  | ok gone =>
    refine ⟨fun key mine => ?_, counts.pinned⟩
    rcases answer.1 with ⟨served, same⟩ | ⟨⟨e, error⟩, _⟩
    · cases gone with
      | false =>
        obtain ⟨f, mem, here, _⟩ := claimed.claimed.entry
        have found := (Store.find?_eq_some_iff sound.orderly.ascending).2 ⟨mem, here⟩
        rw [Store.find?_of_not_deleted served] at found
        cases found
      | true =>
        rw [same, Pinning.own_served] at mine
        cases mine
    · cases error

/-- What is known in the course of a call for some workload. -/
def outline (p : PinPool) (w : String) (i : ι) (retry : Retry) (owner v : String) :
    PinAllocator.Outline (terms p w i) (p.allocator retry) p.pool owner v where
  idle := Settled p w i
  scanned pins s := Settled p w i s ∧
    ∀ c, PinAllocator.pinned v pins = some c → Pinning.Counts p v c s.toPinning
  made a := Claimed p i v a
  surveyed a pins s := Claimed p i v a s ∧
    ∃ c, PinAllocator.pinned v pins = some c ∧ Pinning.Counts p v c s.toPinning
  done c s := Settled p w i s ∧ p.Pinned v c.address s.toPinning
  idle_stays := Settled.stays
  scanned_stays _ _ _ rely := And.imp (Settled.stays rely) fun all c found =>
    (all c found).stays rely.pinning.lasts
  made_stays _ := Claimed.stays
  surveyed_stays _ _ _ _ rely := And.imp (Claimed.stays rely) fun ⟨c, found, counts⟩ =>
    ⟨c, found, counts.stays rely.pinning.lasts⟩
  done_stays _ _ _ rely := And.imp (Settled.stays rely) fun pinned => Pinning.Rely.pinned rely.pinning pinned
  scans sound settled answer := by
    obtain ⟨valid, does⟩ := steps sound (reads p w i _) answer
    exact ⟨valid, does, scans sound settled answer⟩
  finds _ scanned found := ⟨scanned.1, (scanned.2 _ found).pinned⟩
  unfound := And.left
  picks sound settled := stands_still sound settled id rfl
  creates sound settled answer := by
    obtain ⟨valid, does⟩ := steps sound (creating settled) answer
    exact ⟨valid, does, creates sound settled answer⟩
  surveys sound claimed answer := by
    obtain ⟨valid, does⟩ := steps sound (reads p w i _) answer
    exact ⟨valid, does, surveys sound claimed answer⟩
  keeps sound surveyed own := by
    obtain ⟨claimed, c, found, counts⟩ := surveyed
    exact keeps sound claimed counts (own c found)
  withdraws sound surveyed found other answer := by
    obtain ⟨claimed, c, same, counts⟩ := surveyed
    cases found.symm.trans same
    obtain ⟨valid, does⟩ := steps sound (withdrawal claimed counts other) answer
    exact ⟨valid, does, withdraws sound claimed (counts.stays does.1) answer⟩
  sleeps sound settled := stands_still sound settled id rfl

theorem contending_kept (p : PinPool) (w : String) : (p.contending (ι := ι) w).Kept := by
  intro i k s _ sound settled
  change Safe _ _ ((p.stage (ι := ι)).program k) s
  rw [program_eq]
  refine Safe.bind ((outline p w i k.retry k.owner k.workload).claim_safe sound settled) sound
    fun x t _ reached u rely _ => ?_
  cases x with
  | error => exact ⟨Settled.stays rely reached, nofun⟩
  | ok c =>
    refine ⟨Settled.stays rely reached.1, ?_⟩
    rintro a ⟨⟩
    exact Pinning.Rely.pinned rely.pinning reached.2

/-- Nobody has created anything yet, and nothing is pinned to the workload. -/
structure Fresh (p : PinPool) (w : String) (s : Contest ι) : Prop where
  ascending : Store.Ascending s.store.entries
  dated : ∀ e ∈ s.store.entries, e.created ≤ s.store.revision
  unpinned : ∀ e ∈ s.store.entries, ¬ p.Pins w e
  own : ∀ i, s.own i = none
  abandoned : s.abandoned = []

omit [DecidableEq ι] in
theorem Fresh.sound (fresh : Fresh p w s) : Sound p w s := by
  have nobody {i : ι} {key : String} (own : s.own i = some key) : False := by
    rw [fresh.own i] at own
    cases own
  refine ⟨⟨fresh.ascending, fresh.dated, fun i key own => (nobody own).elim,
    fun i j key own => (nobody own).elim⟩, fun e mem pins => (fresh.unpinned e mem pins).elim, ?_,
    fun e mem pins => (fresh.unpinned e mem pins).elim⟩
  rw [fresh.abandoned]
  exact nofun

omit [DecidableEq ι] in
theorem Fresh.settled (fresh : Fresh p w s) (i : ι) : Settled p w i s := by
  intro key own
  rw [fresh.own i] at own
  cases own

/-- When all calls have returned, and one for the workload with an address, the workload has the claim of
this address and those that were abandoned, and no others. So there is exactly one if and only if nobody
has abandoned another one. -/
theorem race_leaves_abandoned {c : Scene (Contest ι) ι Assignment (Option Address)} (fresh : Fresh p w s)
    (reached : Scene.Reached p.contest s c) (ended : ∀ i, c.running i = none) {k : Assignment}
    (assigned : (i, k, some a) ∈ c.returned) (workload : k.workload = w) :
    ∃ first, c.shared.store.find? (p.key a) = some first ∧
      (∀ e, e ∈ c.shared.store.entries ∧ p.Pins w e ↔
        e = first ∨ e ∈ c.shared.abandoned ∧ p.Pins w e) ∧
      ((∃! e, e ∈ c.shared.store.entries ∧ p.Pins w e) ↔
        ∀ e ∈ c.shared.abandoned, p.Pins w e → e = first) := by
  have right := Agreement.reached_right (contending_kept p w) fresh.sound fresh.settled reached
  have sound : Sound p w c.shared := right.valid
  obtain ⟨first, claim, counts, read, address⟩ := right.returned i k (some a) assigned a rfl
  rw [workload] at counts
  obtain ⟨b, key⟩ := sound.canonical first counts.mem counts.pins
  cases (Pinning.address_of_key key read).symm.trans address
  have left (e : KeyValue) : e ∈ c.shared.store.entries ∧ p.Pins w e ↔
      e = first ∨ e ∈ c.shared.abandoned ∧ p.Pins w e := by
    constructor
    · rintro ⟨mem, pins⟩
      have counted (also : p.First c.shared.store.entries w e) : e = first :=
        also.unique sound.orderly.ascending counts
      rcases sound.told e mem pins with also | gone | ⟨j, own⟩
      · exact .inl (counted also)
      · exact .inr ⟨gone, pins⟩
      · obtain ⟨f, here, same, settled⟩ := right.idle j (ended j) e.key own
        cases sound.orderly.ascending.eq_of_key here mem same
        exact (settled pins).imp counted fun gone => ⟨gone, pins⟩
    · rintro (rfl | ⟨gone, pins⟩)
      · exact ⟨counts.mem, counts.pins⟩
      · exact ⟨sound.stands e gone, pins⟩
  refine ⟨first, (Store.find?_eq_some_iff sound.orderly.ascending).2 ⟨counts.mem, key⟩, left, ?_, ?_⟩
  · intro one e gone pins
    exact one.unique ((left e).2 (.inr ⟨gone, pins⟩)) ⟨counts.mem, counts.pins⟩
  · intro none
    refine ⟨first, ⟨counts.mem, counts.pins⟩, fun e here => ?_⟩
    rcases (left e).1 here with same | ⟨gone, pins⟩
    · exact same
    · exact none e gone pins

/-! Two callers race for one workload. The second one finds that the other's claim counts, and his own has
to go. -/

def opened : Contest Bool := ⟨PinPool.opened, []⟩

theorem opened_fresh : Fresh green "web" opened := by
  refine ⟨.nil, ?_, ?_, fun _ => rfl, rfl⟩ <;> rintro e ⟨⟩

theorem race_leaves_one : Fresh green "web" opened ∧ ∃ c, Scene.Reached green.contest opened c ∧
    (∀ i, c.running i = none) ∧
    c.returned = [(false, assigning "left" "web", some 0x0A000001),
      (true, assigning "right" "web", some 0x0A000001)] ∧
    ∃! e, e ∈ c.shared.store.entries ∧ green.Pins "web" e := by
  have run : ((Scene.opening opened).play green.contest (reply (fun _ => false) ends)
      [.call false (assigning "left" "web"), .call true (assigning "right" "web"), .answer false,
        .answer true, .answer false, .answer true, .answer false, .answer true, .answer true,
        .answer true, .finish true, .answer false, .finish false]).any (fun c =>
          (c.running false).isNone && (c.running true).isNone &&
          c.returned = [(false, assigning "left" "web", some 0x0A000001),
            (true, assigning "right" "web", some 0x0A000001)] &&
          c.shared.abandoned = []) := by decide +kernel
  obtain ⟨c, played, facts⟩ := (Option.any_eq_true _ _).1 run
  simp only [Bool.and_eq_true, Option.isNone_iff_eq_none, decide_eq_true_eq] at facts
  obtain ⟨⟨⟨left, right⟩, returned⟩, abandoned⟩ := facts
  have reached : Scene.Reached green.contest opened c :=
    Scene.play_reached (fun _ => reply_answers) (fun _ _ _ => trivial) .opening played
  have ended (i : Bool) : c.running i = none := by cases i <;> assumption
  obtain ⟨first, -, -, one⟩ := race_leaves_abandoned opened_fresh reached ended
    (returned ▸ List.mem_cons_self) rfl
  refine ⟨opened_fresh, c, reached, ended, returned, one.2 ?_⟩
  rw [abandoned]
  exact nofun

/-- The request to delete his own claim fails. When he tries again, he finds the workload pinned and is
content. -/
theorem duplicate_stays : Fresh green "web" opened ∧ ∃ c, Scene.Reached green.contest opened c ∧
    (∀ i, c.running i = none) ∧
    c.returned = [(false, assigning "left" "web", some 0x0A000001),
      (true, assigning "right" "web", some 0x0A000001)] ∧
    c.shared.store.entries.map (fun e => (e.key, e.value)) =
      [(green.key 0x0A000000, record "right" "web"), (green.key 0x0A000001, record "left" "web")] := by
  have run : ((Scene.opening opened).play green.contest (reply StoreRequest.removes ends)
      [.call false (assigning "left" "web"), .call true (assigning "right" "web"), .answer false,
        .answer true, .answer false, .answer true, .answer false, .answer true, .answer true,
        .answer true, .answer true, .answer true, .finish true, .answer false, .finish false]).any
        (fun c => (c.running false).isNone && (c.running true).isNone &&
          c.returned = [(false, assigning "left" "web", some 0x0A000001),
            (true, assigning "right" "web", some 0x0A000001)] &&
          c.shared.store.entries.map (fun e => (e.key, e.value)) =
            [(green.key 0x0A000000, record "right" "web"), (green.key 0x0A000001, record "left" "web")]) := by
    decide +kernel
  obtain ⟨c, played, facts⟩ := (Option.any_eq_true _ _).1 run
  simp only [Bool.and_eq_true, Option.isNone_iff_eq_none, decide_eq_true_eq] at facts
  obtain ⟨⟨⟨left, right⟩, returned⟩, entries⟩ := facts
  have reached : Scene.Reached green.contest opened c :=
    Scene.play_reached (fun _ => reply_answers) (fun _ _ _ => trivial) .opening played
  have ended (i : Bool) : c.running i = none := by cases i <;> assumption
  exact ⟨opened_fresh, c, reached, ended, returned, entries⟩

end Contest

end NetPool
