import NetPool.Proofs.Lease.Watched

/-! A monitor of a lease at work, while the store goes on. It waits for its watch, its alarm and the
request to stop, and what comes first decides; a watch that is given up is begun again. -/

namespace NetPool

/-- A monitor, with the program that it runs. -/
structure Monitoring where
  now : Informed
  state : LeaseMonitor.State
  running : Option (Program LeaseMonitor.State)

namespace Monitoring

def start (l : Lived) (claim : SubnetClaim) : Monitoring where
  now := ⟨l, none⟩
  state := { claim }
  running := none

inductive Step (m : LeaseMonitor) : Monitoring → Monitoring → Prop
  | moved (c : Monitoring) {s : Store} (move : Store.Moves c.now.world.store s) :
      Step m c { c with now := { c.now with world := c.now.world.moved s } }
  | begun (c : Monitoring) {stopped alarm p} (idle : c.running = none)
      (waits : m.activity c.state = .wait stopped alarm (.program p)) :
      Step m c { c with running := some p }
  | worked (c : Monitoring) {p} (idle : c.running = none) (works : m.activity c.state = .work p) :
      Step m c { c with running := some p }
  | answered (c : Monitoring) {r next x i} (waits : c.running = some (.ask r next))
      (answer : c.now.Answers r x i) : Step m c { c with now := i, running := some (next x) }
  | ended (c : Monitoring) {s} (finished : c.running = some (.pure s)) :
      Step m c { c with state := s, running := none }
  | stopped (c : Monitoring) {stopped alarm source}
      (waits : m.activity c.state = .wait stopped alarm source) :
      Step m c { c with state := stopped, running := none }
  | alarmed (c : Monitoring) {stopped instant s source}
      (waits : m.activity c.state = .wait stopped (some (instant, s)) source) :
      Step m c { c with state := s, running := none }

/-- A run that begins with a store as it has become. -/
inductive Reached (m : LeaseMonitor) (l : Lived) (claim : SubnetClaim) : Monitoring → Prop
  | start : Reached m l claim (.start l claim)
  | step {c d : Monitoring} (reached : Reached m l claim c) (step : Step m c d) : Reached m l claim d

end Monitoring

def LeaseMonitor.key (m : LeaseMonitor) (c : SubnetClaim) : String :=
  m.allocator.layout.subnetKey c.pool c.subnet

namespace Monitoring

variable {m : LeaseMonitor} {claim : SubnetClaim} {since : Nat} {i j : Informed} {l : Lived}
  {s : LeaseMonitor.State}

/-- What a monitor may believe: the lease is the one it began with but for its end, it was its owner's at
the cursor, and it was lost if the monitor has given it up. -/
structure Fits (m : LeaseMonitor) (claim : SubnetClaim) (since : Nat) (i : Informed)
    (s : LeaseMonitor.State) : Prop where
  same : ∃ expiration, s.claim = { claim with expiration }
  cursor : ∀ n ∈ s.cursor, since ≤ n ∧ i.world.Owned claim.owner (m.key claim) n
  failed : ∀ e, s.phase = .failed e → e = claim.revoked ∧ i.world.Lost claim.owner (m.key claim) since

theorem Fits.later (fits : Fits m claim since i s) (later : i.world.Later j.world) :
    Fits m claim since j s := by
  refine ⟨fits.same, fun n mem => ?_, fun e failed => ?_⟩
  · obtain ⟨le, owned⟩ := fits.cursor n mem
    exact ⟨le, owned.later later⟩
  · obtain ⟨same, lost⟩ := fits.failed e failed
    exact ⟨same, lost.later later⟩

/-- Where a cursor may go: nowhere, or on; and if by a batch of events, the lease was its owner's all the
way. -/
def Advances (m : LeaseMonitor) (claim : SubnetClaim) (i : Informed) (cursor next : Option Nat) : Prop :=
  next = cursor ∨ ∃ n, next = some n ∧ (∀ a ∈ cursor, a ≤ n) ∧ ∀ a batch, i.heard = some (a, batch) →
    cursor = some a ∧ n = max batch.revision a ∧
      ∀ r, a ≤ r → r ≤ n → i.world.Owned claim.owner (m.key claim) r

/-- What is right of a program that a monitor runs in a state. -/
abbrev Goes (m : LeaseMonitor) (claim : SubnetClaim) (since : Nat) (s : LeaseMonitor.State)
    (p : Program LeaseMonitor.State) (i : Informed) : Prop :=
  Safe informed (fun t j => Fits m claim since j t ∧ Advances m claim j s.cursor t.cursor) p i

/-! The programs of a monitor. -/

theorem schedule_goes (fits : Fits m claim since i s) : Goes m claim since s (m.schedule s) i := by
  apply Informed.ask_safe
  intro j now k before _ _ _ later
  apply Informed.ask_safe
  intro j' instant k' before' _ _ _ later' n rely _
  have fits := ((((fits.later before).later later).later before').later later').later rely.1
  exact ⟨⟨fits.same, fits.cursor, nofun⟩, .inl rfl⟩

theorem observe_fits {o : Observation} (fits : Fits m claim since i s)
    (tells : Informed.Tells claim.owner (m.key claim) since s.cursor o i) :
    Fits m claim since i (LeaseMonitor.observe o s) ∧
      Advances m claim i s.cursor (LeaseMonitor.observe o s).cursor := by
  obtain ⟨expiration, same⟩ := fits.same
  have owner : s.claim.owner = claim.owner := by rw [same]
  have revoked : s.claim.revoked = claim.revoked := by rw [same]; rfl
  unfold LeaseMonitor.observe
  rw [owner, revoked]
  split
  · rename_i all
    refine ⟨⟨fits.same, ?_, nofun⟩, .inr ⟨o.cursor, rfl, tells.forward, ?_⟩⟩
    · rintro n ⟨⟩
      exact ⟨tells.since_le, tells.owned all⟩
    · intro a batch told
      obtain ⟨cursor, next⟩ := tells.joined a batch told
      exact ⟨cursor, next, tells.throughout all a batch told⟩
  · rename_i not
    refine ⟨⟨fits.same, fits.cursor, ?_⟩, .inl rfl⟩
    rintro e ⟨⟩
    exact ⟨rfl, tells.lost (Bool.not_eq_true _ ▸ not)⟩

theorem watch_goes (valid : informed.valid i) (fits : Fits m claim since i s)
    (begun : since ≤ i.world.store.revision) : Goes m claim since s (m.watch s) i := by
  obtain ⟨expiration, same⟩ := fits.same
  have scope : m.scope s.claim = .key (m.key claim) := by rw [same]; rfl
  unfold Goes LeaseMonitor.watch
  rw [scope]
  refine Safe.bind (Informed.later_safe (Informed.watchFrom_tells valid fits.cursor begun)) valid ?_
  rintro x j _ ⟨tells, later⟩
  cases x with
  | ok o =>
    intro k rely _
    exact observe_fits ((fits.later later).later rely.1) ((tells o rfl).stays rely)
  | error e =>
    apply Informed.ask_safe
    intro k instant k' before _ _ _ after n rely _
    have fits := (((fits.later later).later before).later after).later rely.1
    exact ⟨⟨fits.same, fits.cursor, nofun⟩, .inl rfl⟩

theorem written_tells (a : LeaseAllocator) (c : SubnetClaim) :
    Safe informed (fun x _ => (∀ d, x = .ok d → ∃ expiration, d = { c with expiration }) ∧
      ∀ e, x = .error e → e.fatal = false) (a.write c) i := by
  rw [LeaseAllocator.write_eq]
  apply Informed.ask_safe
  intro _ now _ _ _ _ _ _
  apply Informed.ask_safe
  intro _ x _ _ _ _ _ _
  cases x with
  | error e =>
    intro _ _ _
    refine ⟨nofun, ?_⟩
    rintro _ ⟨⟩
    rfl
  | ok revision =>
    intro _ _ _
    refine ⟨?_, nofun⟩
    rintro _ ⟨⟩
    exact ⟨_, rfl⟩

/-- A renewal moves the end of the lease on; it is fatal only if the lease was found lost. -/
theorem renewal_tells {a : LeaseAllocator} {c : SubnetClaim} (begun : since ≤ i.world.store.revision) :
    Safe informed (fun x j => (∀ d, x = .ok d → ∃ expiration, d = { c with expiration }) ∧
      ∀ e, x = .error e → e.fatal = true →
        e = c.revoked ∧ j.world.Lost c.owner (a.layout.subnetKey c.pool c.subnet) since)
      (a.renew c) i := by
  rw [LeaseAllocator.renew_eq]
  apply Informed.ask_safe
  intro j x k before valid answer _ later
  cases x with
  | error e =>
    intro _ _ _
    refine ⟨nofun, ?_⟩
    rintro _ ⟨⟩ ⟨⟩
  | ok found =>
    obtain ⟨⟨s, served, _⟩ | ⟨⟨e, same⟩, _⟩, _⟩ := answer
    · have shown : found = j.world.store.find? (a.layout.subnetKey c.pool c.subnet) :=
        Store.get_found (congrArg Prod.fst served)
      change Safe informed _ (if heldBy c.owner found then _ else _) k
      split
      · refine (written_tells a c).weaken ?_
        rintro y _ _ ⟨renewed, passing⟩
        refine ⟨renewed, fun e failed fatal => ?_⟩
        rw [passing e failed] at fatal
        cases fatal
      · rename_i not
        intro n rely _
        refine ⟨nofun, ?_⟩
        rintro _ ⟨⟩ _
        obtain ⟨past, _, here, _⟩ := valid.1
        have lost : j.world.Lost c.owner (a.layout.subnetKey c.pool c.subnet) since :=
          ⟨_, here, Nat.le_trans begun before.2, by simpa [← shown] using not⟩
        exact ⟨rfl, (lost.later later).later rely.1⟩
    · cases same

theorem renew_goes (valid : informed.valid i) (fits : Fits m claim since i s)
    (begun : since ≤ i.world.store.revision) : Goes m claim since s (m.renew s) i := by
  obtain ⟨expiration, same⟩ := fits.same
  refine Safe.bind (Informed.later_safe (renewal_tells begun)) valid ?_
  rintro x j _ ⟨⟨renewed, lost⟩, later⟩
  have fits := fits.later later
  cases x with
  | ok d =>
    obtain ⟨expiration', rfl⟩ := renewed d rfl
    refine schedule_goes ⟨⟨expiration', ?_⟩, fits.cursor, fits.failed⟩
    rw [same]
  | error e =>
    change Safe informed _ (if e.fatal then _ else _) j
    split
    · rename_i fatal
      intro k rely _
      obtain ⟨revoked, lost⟩ := lost e rfl fatal
      rw [same] at revoked lost
      refine ⟨⟨fits.same, (fits.later rely.1).cursor, ?_⟩, .inl rfl⟩
      rintro _ ⟨⟩
      exact ⟨revoked, lost.later rely.1⟩
    · apply Informed.ask_safe
      intro k instant k' before _ _ _ after n rely _
      have fits := ((fits.later before).later after).later rely.1
      exact ⟨⟨fits.same, fits.cursor, nofun⟩, .inl rfl⟩

/-! What a monitor is at in each phase. -/

theorem activity_waits {stopped : LeaseMonitor.State} {alarm source}
    (waits : m.activity s = .wait stopped alarm source) : stopped = { s with phase := .stopped } ∧
      ∀ instant t, alarm = some (instant, t) → t.claim = s.claim ∧ t.cursor = s.cursor ∧
        ∀ e, t.phase ≠ .failed e := by
  unfold LeaseMonitor.activity at waits
  cases phase : s.phase <;> rw [phase] at waits <;> cases waits
  all_goals
    refine ⟨rfl, ?_⟩
    rintro instant t ⟨⟩
    exact ⟨rfl, rfl, nofun⟩

theorem activity_program {stopped : LeaseMonitor.State} {alarm p}
    (waits : m.activity s = .wait stopped alarm (.program p)) : p = m.watch s := by
  unfold LeaseMonitor.activity at waits
  cases phase : s.phase <;> rw [phase] at waits <;> cases waits
  rfl

theorem activity_work {p} (works : m.activity s = .work p) : p = m.schedule s ∨ p = m.renew s := by
  unfold LeaseMonitor.activity at works
  cases phase : s.phase <;> rw [phase] at works <;> cases works
  · exact .inl rfl
  · exact .inr rfl

theorem activity_finish {e : Failure} (ends : m.activity s = .finish (.error e)) :
    s.phase = .failed e := by
  unfold LeaseMonitor.activity at ends
  cases phase : s.phase <;> rw [phase] at ends <;> cases ends
  rfl

/-! The run. -/

structure Right (m : LeaseMonitor) (claim : SubnetClaim) (since : Nat) (c : Monitoring) : Prop where
  world : informed.valid c.now
  begun : since ≤ c.now.world.store.revision
  state : Fits m claim since c.now c.state
  running : ∀ p ∈ c.running, Goes m claim since c.state p c.now

variable {c d : Monitoring}

theorem start_right (right : l.Right) (whole : l.Whole) :
    Right m claim l.store.revision (start l claim) where
  world := ⟨right, whole⟩
  begun := Nat.le_refl _
  state := ⟨⟨claim.expiration, rfl⟩, nofun, nofun⟩
  running := nofun

theorem Right.step (right : c.Right m claim since) (step : Step m c d) : d.Right m claim since := by
  cases step with
  | moved move =>
    obtain ⟨world, later⟩ := right.world.1.moved move
    exact ⟨⟨world, right.world.2.moved move⟩, Nat.le_trans right.begun later.2,
      right.state.later later, fun p mem => (right.running p mem).later ⟨later, rfl⟩⟩
  | begun _ waits =>
    refine ⟨right.world, right.begun, right.state, ?_⟩
    rintro p ⟨⟩
    rw [activity_program waits]
    exact watch_goes right.world right.state right.begun
  | worked _ works =>
    refine ⟨right.world, right.begun, right.state, ?_⟩
    rintro p ⟨⟩
    rcases activity_work works with rfl | rfl
    · exact schedule_goes right.state
    · exact renew_goes right.world right.state right.begun
  | answered waits answer =>
    obtain ⟨world, later⟩ := answer.keeps right.world
    have rest := (right.running _ waits c.now (informed.refl _) right.world _ _ answer).2.2
    refine ⟨world, Nat.le_trans right.begun later.2, right.state.later later, ?_⟩
    rintro p ⟨⟩
    exact rest
  | ended finished =>
    have done := right.running _ finished c.now (informed.refl _) right.world
    exact ⟨right.world, right.begun, done.1, nofun⟩
  | stopped waits =>
    obtain ⟨rfl, _⟩ := activity_waits waits
    exact ⟨right.world, right.begun, ⟨right.state.same, right.state.cursor, nofun⟩, nofun⟩
  | alarmed waits =>
    obtain ⟨_, alarm⟩ := activity_waits waits
    obtain ⟨same, cursor, phase⟩ := alarm _ _ rfl
    refine ⟨right.world, right.begun, ⟨?_, ?_, fun e failed => absurd failed (phase e)⟩, nofun⟩
    · rw [same]
      exact right.state.same
    · rw [cursor]
      exact right.state.cursor

theorem Reached.right {limit : Nat} (grown : l.Grown limit) (reached : Reached m l claim c) :
    c.Right m claim l.store.revision := by
  induction reached with
  | start =>
    obtain ⟨right, whole⟩ := grown.right
    exact start_right right whole
  | step _ step ih => exact ih.step step

/-- Only a program that ends moves the cursor. -/
theorem Right.change (right : c.Right m claim since) (step : Step m c d) :
    Advances m claim c.now c.state.cursor d.state.cursor := by
  cases step with
  | moved | begun | worked | answered => exact .inl rfl
  | ended finished => exact (right.running _ finished c.now (informed.refl _) right.world).2
  | stopped waits =>
    obtain ⟨rfl, _⟩ := activity_waits waits
    exact .inl rfl
  | alarmed waits =>
    obtain ⟨_, alarm⟩ := activity_waits waits
    exact .inl (alarm _ _ rfl).2.1

/-- A monitor goes on only while the lease is its owner's: it was at the revision of the cursor, and at
every revision between two cursors that are joined by events. The monitor fails only with a revocation,
and then there was a revision since it started at which the lease was not its owner's. -/
theorem monitor_tells_truth {limit : Nat} (grown : l.Grown limit) (reached : Reached m l claim c) :
    (∀ n ≤ c.now.world.store.revision, ∃ s ∈ c.now.world.seen, s.revision = n) ∧
    (∀ n, c.state.cursor = some n → n ≤ c.now.world.store.revision ∧
      ∀ s ∈ c.now.world.seen, s.revision = n → heldBy claim.owner (s.find? (m.key claim)) = true) ∧
    (∀ d, Step m c d → d.state.cursor = c.state.cursor ∨
      ∃ n, d.state.cursor = some n ∧ (∀ a ∈ c.state.cursor, a ≤ n) ∧
        ∀ a batch, c.now.heard = some (a, batch) →
          c.state.cursor = some a ∧ n = max batch.revision a ∧ ∀ s ∈ c.now.world.seen,
            a ≤ s.revision → s.revision ≤ n → heldBy claim.owner (s.find? (m.key claim)) = true) ∧
    (∀ e, m.activity c.state = .finish (.error e) → e = claim.revoked ∧
      ∃ s ∈ c.now.world.seen, l.store.revision ≤ s.revision ∧
        heldBy claim.owner (s.find? (m.key claim)) = false) := by
  have right := reached.right grown
  refine ⟨right.world.2, ?_, ?_, ?_⟩
  · intro n cursor
    have owned := (right.state.cursor n cursor).2
    exact ⟨owned.le right.world.1, fun s => owned.exact right.world.1⟩
  · intro d step
    rcases right.change step with same | ⟨n, next, forward, joined⟩
    · exact .inl same
    · refine .inr ⟨n, next, forward, fun a batch told => ?_⟩
      obtain ⟨cursor, top, owned⟩ := joined a batch told
      exact ⟨cursor, top, fun s seen low high => (owned _ low high).exact right.world.1 seen rfl⟩
  · intro e ends
    exact right.state.failed e (activity_finish ends)

/-! A run that is played turn by turn, with the clock at a stand. -/

inductive Turn
  /-- A request of somebody else. -/
  | other (r : StoreRequest)
  | go
  | answer
  | finish
  | alarm

def reply (l : Lived) : (r : Request) → Option (r.Answer × Lived)
  | .store r => (l.store.serve r).1.map fun x => (x, l.moved (l.store.serve r).2)
  | .now => some (0, l)
  | .instant => some (0, l)
  | _ => none

def turned (m : LeaseMonitor) (c : Monitoring) : Turn → Option Monitoring
  | .other r => some { c with now := { c.now with world := c.now.world.moved (c.now.world.store.serve r).2 } }
  | .go =>
    match c.running, m.activity c.state with
    | none, .work p => some { c with running := some p }
    | none, .wait _ _ (.program p) => some { c with running := some p }
    | _, _ => none
  | .answer =>
    match c.running with
    | some (.ask r next) => (reply c.now.world r).map fun x =>
      { c with now := ⟨x.2, Informed.hears r x.1⟩, running := some (next x.1) }
    | _ => none
  | .finish =>
    match c.running with
    | some (.pure s) => some { c with state := s, running := none }
    | _ => none
  | .alarm =>
    match m.activity c.state with
    | .wait _ (some (_, s)) _ => some { c with state := s, running := none }
    | _ => none

theorem reply_answers {r : Request} {x : r.Answer} {l' : Lived} (answered : reply l r = some (x, l')) :
    l.Answers r x l' := by
  cases r with
  | store r =>
    obtain ⟨y, served, same⟩ := Option.map_eq_some_iff.1 answered
    cases same
    exact .inl ⟨_, Prod.ext served rfl, rfl⟩
  | now | instant =>
    cases answered
    exact rfl
  | cache | chore | sleep | pick | isLive | apply => cases answered

theorem turned_step {turn : Turn} (played : turned m c turn = some d) : Step m c d := by
  cases turn with
  | other r =>
    cases played
    exact .moved c (.serve _ r)
  | go =>
    simp only [turned] at played
    split at played
    · rename_i idle works
      cases played
      exact .worked c idle works
    · rename_i idle waits
      cases played
      exact .begun c idle waits
    · cases played
  | answer =>
    simp only [turned] at played
    split at played
    · rename_i waits
      obtain ⟨⟨x, l⟩, answered, rfl⟩ := Option.map_eq_some_iff.1 played
      exact .answered c waits ⟨reply_answers answered, rfl⟩
    · cases played
  | finish =>
    simp only [turned] at played
    split at played
    · rename_i finished
      cases played
      exact .ended c finished
    · cases played
  | alarm =>
    simp only [turned] at played
    split at played
    · rename_i waits
      cases played
      exact .alarmed c waits
    · cases played

theorem turns_reached {turns : List Turn} (reached : Reached m l claim c)
    (played : turns.foldlM (turned m) c = some d) : Reached m l claim d := by
  induction turns generalizing c with
  | nil =>
    cases played
    exact reached
  | cons turn rest ih =>
    obtain ⟨e, first, played⟩ := Option.bind_eq_some_iff.1 played
    exact ih (reached.step (turned_step first)) played

def held : SubnetClaim := ⟨"green", .around 0x0A000100 28 (by decide), "me", 100⟩

def watcher : LeaseMonitor := ⟨⟨.standard, 100, ⟨3, 50⟩⟩, 500⟩

def leased : Lived :=
  (Lived.start (.empty 100)).moved
    ((Store.empty 100).serve (.put (watcher.key held) (LeasePool.record "me" 100))).2

def ending (c : Monitoring) : Option Failure :=
  match watcher.activity c.state with
  | .finish (.error e) => some e
  | _ => none

/-- A lease that the monitor finds in a snapshot, renews, sees renewed in a batch, and sees deleted. -/
theorem renewed_then_revoked : leased.Grown 100 ∧ ∃ b c d, Reached watcher leased held b ∧
    Step watcher b c ∧ Reached watcher leased held d ∧ b.state.cursor = some 1 ∧
    c.state.cursor = some 2 ∧ (∃ batch, b.now.heard = some (1, batch)) ∧
    (∀ s ∈ b.now.world.seen, 1 ≤ s.revision → s.revision ≤ 2 →
      heldBy "me" (s.find? (watcher.key held)) = true) ∧
    watcher.activity d.state = .finish (.error held.revoked) ∧
    ∃ s ∈ d.now.world.seen, leased.store.revision ≤ s.revision ∧
      heldBy "me" (s.find? (watcher.key held)) = false := by
  have run : (List.foldlM (turned watcher) (start leased held) [.go, .answer, .answer, .finish, .go,
        .answer, .finish, .alarm, .go, .answer, .answer, .answer, .answer, .answer, .finish, .go,
        .answer]).bind (fun b => (turned watcher b .finish).bind fun c =>
      (List.foldlM (turned watcher) c [.other (.delete (watcher.key held)), .go, .answer, .finish]).map
        fun d => (b.state.cursor, c.state.cursor, b.now.heard.map (·.1), ending d)) =
      some (some 1, some 2, some 1, some held.revoked) := by decide +kernel
  obtain ⟨b, first, run⟩ := Option.bind_eq_some_iff.1 run
  obtain ⟨c, second, run⟩ := Option.bind_eq_some_iff.1 run
  obtain ⟨d, third, same⟩ := Option.map_eq_some_iff.1 run
  simp only [Prod.mk.injEq] at same
  obtain ⟨before, after, heard, ends⟩ := same
  have grown : leased.Grown 100 := .moved .start (.serve _ _)
  have atB : Reached watcher leased held b := turns_reached .start first
  have step : Step watcher b c := turned_step second
  have atD : Reached watcher leased held d := turns_reached (atB.step step) third
  obtain ⟨⟨a, batch⟩, told, rfl⟩ := Option.map_eq_some_iff.1 heard
  obtain ⟨_, _, change, _⟩ := monitor_tells_truth grown atB
  obtain ⟨_, _, _, revoked⟩ := monitor_tells_truth grown atD
  have finish : watcher.activity d.state = .finish (.error held.revoked) := by
    unfold ending at ends
    split at ends
    · rename_i e finish
      rw [finish, Option.some.inj ends]
    · cases ends
  refine ⟨grown, b, c, d, atB, step, atD, before, after, ⟨batch, told⟩, ?_, finish, (revoked _ finish).2⟩
  rcases change c step with same | ⟨n, next, _, joined⟩
  · rw [before, after] at same
    cases same
  · rw [after] at next
    cases next
    exact (joined _ batch told).2.2

end Monitoring

end NetPool
