import NetPool.Proofs.Lease.Calls

/-! One owner at a time. -/

namespace NetPool.Leasing

variable {ι : Type} [DecidableEq ι] {l : LeasePool ι} {punctual : Prop} {s : Leasing ι}

/-- Nobody has done anything yet, and the leases in the store stand under their own keys. -/
structure Fresh (l : LeasePool ι) (s : Leasing ι) : Prop where
  ascending : Store.Ascending s.store.entries
  dated : ∀ e ∈ s.store.entries, e.modified ≤ s.store.revision
  canonical : ∀ e ∈ s.store.entries, startsWith e.key (l.layout.claimStart .subnet l.pool.name) = true →
    ∀ c, SubnetClaim.ofEntry l.layout e = .ok c → l.layout.subnetKey c.pool c.subnet = e.key
  seen : ∀ i, s.seen i = []
  granted : s.granted = []
  blind : s.blind = []

omit [DecidableEq ι] in
theorem Fresh.sound (fresh : Fresh l s) : Sound l punctual s := by
  have unseen {i : ι} {e : KeyValue} (mem : e ∈ s.seen i) : False := by
    rw [fresh.seen i] at mem
    cases mem
  have ungranted {g : Lease} (mem : g ∈ s.granted) : False := by
    rw [fresh.granted] at mem
    cases mem
  exact ⟨fresh.ascending, fresh.canonical, fresh.dated, fun i e mem => (unseen mem).elim,
    fun i e mem => (unseen mem).elim, fun g mem => (ungranted mem).elim,
    fun _ => ⟨fun i e mem => (unseen mem).elim, fun g mem => (ungranted mem).elim,
      fun g mem => (ungranted mem).elim⟩, fun _ => fresh.blind⟩

/-- A put or a delete relies on a lease of its owner that the caller has read under the key. Unless a
lease has been overwritten blindly, that lease is the one that stands there, until it ends or another
caller of the owner writes there; and no two owners have a lease under one key that has been granted, has
not ended and has not been given back. Punctual callers never overwrite blindly. -/
theorem leases_exclusive {c : Scene (Leasing ι) ι LeaseCall (Option SubnetClaim)} (fresh : Fresh l s)
    (reached : Scene.Reached (l.stage punctual) s c) :
    (∀ i call r next key, c.running i = some (call, .ask (.store r) next) → overwrites r = some key →
      ∃ e ∈ c.shared.seen i, e.key = key ∧ ∃ ends, e.lease = some (l.owner i, ends) ∧
        (c.shared.blind = [] → c.shared.now < ends → key ∉ c.shared.touched i →
          c.shared.store.find? key = some e)) ∧
    (∀ i call r next key modified, c.running i = some (call, .ask (.store r) next) →
      r = .compareAndDelete key modified → ∀ e, c.shared.store.find? key = some e →
        e.modified = modified → ∀ owner ends, e.lease = some (owner, ends) →
          ends ≤ c.shared.now ∨ owner = l.owner i) ∧
    (∀ i call claim, (i, call, some claim) ∈ c.returned → claim.owner = call.owner ∧
      (l.lease claim ∈ c.shared.granted ∨ l.lease claim ∈ c.shared.givenBack)) ∧
    (c.shared.blind = [] → ∀ g ∈ c.shared.granted, ∀ h ∈ c.shared.granted, g.key = h.key →
      c.shared.now < g.ends → c.shared.now < h.ends → g.owner = h.owner) ∧
    (punctual → c.shared.blind = []) := by
  have right := Agreement.reached_right (leasing_kept l punctual) fresh.sound (fun _ => trivial) reached
  have sound : Sound l punctual c.shared := right.valid
  -- Any request may be lost, so what is promised of it holds as soon as it is made.
  have intended {i call r next} (waits : c.running i = some (call, .ask (.store r) next)) :
      c.shared.Intends l i r :=
    (right.does (x := .error (.internal "")) (t := c.shared) waits (.inr ⟨⟨_, rfl⟩, rfl⟩)).1 r rfl
  refine ⟨fun i call r next key waits puts => ?_, fun i call r next key modified waits same e found
    read owner ends lease => ?_, fun i call claim mem => right.returned i call _ mem claim rfl,
    fun clear => (sound.clear clear).single, sound.sighted⟩
  · obtain ⟨e, mem, rfl, ends, lease⟩ := (intended waits).relied puts
    refine ⟨e, mem, rfl, ends, lease, fun clear lasts left => ?_⟩
    have here := (sound.clear clear).current i e mem ends lease lasts left
    exact (Store.find?_eq_some_iff sound.ascending).2 ⟨here, rfl⟩
  · subst same
    obtain ⟨f, mem, key', modified', claim, entry, reason⟩ := intended waits
    obtain ⟨here, same⟩ := (Store.find?_eq_some_iff sound.ascending).1 found
    cases sound.same i f mem e here (same.trans key'.symm) (read.trans modified'.symm)
    obtain ⟨rfl, rfl⟩ := KeyValue.lease_inj lease (SubnetClaim.ofEntry_eq_ok.1 entry).2
    rcases reason with expired | ⟨mine, _⟩
    · exact .inl (of_decide_eq_true expired)
    · exact .inr mine

/-! Two owners, each with one caller, and a store that is empty. -/

def opened : Leasing Bool where
  store := .empty 100
  now := 0
  seen _ := []
  touched _ := []
  granted := []
  givenBack := []
  blind := []

def duo : LeasePool Bool where
  layout := .standard
  pool := .covering "green" .subnet (.around 0x0A000000 24 (by decide))
  owner i := if i then "right" else "left"
  ttl _ := 100

def subnetAt (a : Address) : Subnet := .around a 32 (by decide)

def claimed (a : Address) (owner : String) (ends : UInt64) : SubnetClaim :=
  ⟨"green", subnetAt a, owner, ends⟩

def ask (a : Address) (owner : String) : LeaseCall := .acquire ⟨3, 50⟩ owner (some (subnetAt a))

abbrev Duo := Scene (Leasing Bool) Bool LeaseCall (Option SubnetClaim)

/-- The turns, if each call is made for the owner that its caller acts for. -/
def played (punctual : Prop) [Decidable punctual] (turns : List (Scene.Turn Bool LeaseCall))
    (c : Duo) : Option Duo :=
  if turns.all permitted then c.play (duo.stage punctual) (reply duo punctual) turns else none
where
  permitted : Scene.Turn Bool LeaseCall → Bool
    | .call i k => k.owner = duo.owner i
    | _ => true

def waited (now : UInt64) (c : Duo) : Duo := { c with shared := { c.shared with now } }

theorem opened_fresh : Fresh duo opened := by
  refine ⟨.nil, ?_, ?_, fun _ => rfl, rfl, rfl⟩
  · rintro e ⟨⟩
  · rintro e ⟨⟩

theorem played_reached {punctual : Prop} [Decidable punctual]
    {turns : List (Scene.Turn Bool LeaseCall)} {s : Leasing Bool} {c d : Duo}
    (run : played punctual turns c = some d) (reached : Scene.Reached (duo.stage punctual) s c) :
    Scene.Reached (duo.stage punctual) s d := by
  unfold played at run
  split at run
  · rename_i permitted
    refine Scene.play_reached (fun _ => reply_answers) (fun i k mem => ?_) reached run
    have owner : k.owner = duo.owner i := of_decide_eq_true (List.all_eq_true.1 permitted _ mem)
    exact owner
  · cases run

theorem waited_reached {punctual : Prop} {now : UInt64} {s : Leasing Bool} {c : Duo}
    (le : c.shared.now ≤ now) (reached : Scene.Reached (duo.stage punctual) s c) :
    Scene.Reached (duo.stage punctual) s (waited now c) :=
  reached.step (.moved c ⟨now, le, rfl⟩)

theorem two_leases_exclusive : Fresh duo opened ∧
    ∃ c, Scene.Reached (duo.stage True) opened c ∧
      c.returned = [(true, .release (claimed 0x0A000002 "right" 100), none),
        (false, .renew (claimed 0x0A000001 "left" 100), some (claimed 0x0A000001 "left" 150)),
        (true, ask 0x0A000002 "right", some (claimed 0x0A000002 "right" 100)),
        (false, ask 0x0A000001 "left", some (claimed 0x0A000001 "left" 100))] ∧
      (duo.lease (claimed 0x0A000001 "left" 150) ∈ c.shared.granted ∨
        duo.lease (claimed 0x0A000001 "left" 150) ∈ c.shared.givenBack) ∧
      c.shared.blind = [] ∧ ∀ g ∈ c.shared.granted, ∀ h ∈ c.shared.granted, g.key = h.key →
        c.shared.now < g.ends → c.shared.now < h.ends → g.owner = h.owner := by
  have run : ((played True [.call false (ask 0x0A000001 "left"), .call true (ask 0x0A000002 "right"),
        .answer false, .answer true, .answer false, .answer true, .answer false, .answer true,
        .answer false, .answer true, .finish false, .finish true] (Scene.opening opened)).bind fun b =>
      (played True [.call false (.renew (claimed 0x0A000001 "left" 100)), .answer false, .answer false,
        .answer false, .finish false, .call true (.release (claimed 0x0A000002 "right" 100)),
        .answer true, .answer true, .finish true] (waited 50 b)).map fun c => (b.shared.now, c.returned)) =
      some (0, [(true, .release (claimed 0x0A000002 "right" 100), none),
        (false, .renew (claimed 0x0A000001 "left" 100), some (claimed 0x0A000001 "left" 150)),
        (true, ask 0x0A000002 "right", some (claimed 0x0A000002 "right" 100)),
        (false, ask 0x0A000001 "left", some (claimed 0x0A000001 "left" 100))]) := by decide +kernel
  obtain ⟨b, first, run⟩ := Option.bind_eq_some_iff.1 run
  obtain ⟨c, second, same⟩ := Option.map_eq_some_iff.1 run
  obtain ⟨now, returned⟩ := Prod.mk.inj same
  have start : Scene.Reached (duo.stage True) opened b := played_reached first .opening
  have reached : Scene.Reached (duo.stage True) opened c :=
    played_reached second (waited_reached (now ▸ by decide) start)
  obtain ⟨_, _, had, single, sighted⟩ := leases_exclusive opened_fresh reached
  have mem : (false, LeaseCall.renew (claimed 0x0A000001 "left" 100),
      some (claimed 0x0A000001 "left" 150)) ∈ c.returned := by
    rw [returned]
    exact List.mem_cons_of_mem _ List.mem_cons_self
  have clear := sighted trivial
  exact ⟨opened_fresh, c, reached, returned, (had _ _ _ mem).2, clear, single clear⟩

/-- What a caller is about to put or delete. -/
def overwriting (c : Duo) (i : Bool) : Option String :=
  match c.running i with
  | some (_, .ask (.store r) _) => overwrites r
  | _ => none

/-- A lease that is taken over: its owner finds it and is about to renew it, it ends, another owner leases
the subnet, and the renewal overwrites that lease. Both owners then have the subnet. -/
theorem lease_taken_over : ∃ c d, Scene.Reached (duo.stage False) opened c ∧
    Scene.Reached (duo.stage False) opened d ∧
    (overwriting c false = some (duo.lease (claimed 0x0A000001 "right" 200)).key ∧
      (c.shared.store.find? (duo.lease (claimed 0x0A000001 "right" 200)).key).bind (·.lease) =
        some ("right", 200) ∧ c.shared.now = 100) ∧
    d.returned = [(false, .renew (claimed 0x0A000001 "left" 100), some (claimed 0x0A000001 "left" 200)),
      (true, ask 0x0A000001 "right", some (claimed 0x0A000001 "right" 200)),
      (false, ask 0x0A000001 "left", some (claimed 0x0A000001 "left" 100))] ∧
    d.shared.now = 100 ∧ d.shared.givenBack = [] := by
  have run : ((played False [.call false (ask 0x0A000001 "left"), .answer false, .answer false,
        .answer false, .answer false, .finish false, .call false (.renew (claimed 0x0A000001 "left" 100)),
        .answer false] (Scene.opening opened)).bind fun b =>
      (played False [.call true (ask 0x0A000001 "right"), .answer true, .answer true, .answer true,
        .answer true, .answer true, .finish true, .answer false] (waited 100 b)).bind fun c =>
      (played False [.answer false, .finish false] c).map fun d => (b.shared.now,
        decide (overwriting c false = some (duo.lease (claimed 0x0A000001 "right" 200)).key ∧
          (c.shared.store.find? (duo.lease (claimed 0x0A000001 "right" 200)).key).bind (·.lease) =
            some ("right", 200) ∧ c.shared.now = 100),
        decide (d.returned =
          [(false, .renew (claimed 0x0A000001 "left" 100), some (claimed 0x0A000001 "left" 200)),
            (true, ask 0x0A000001 "right", some (claimed 0x0A000001 "right" 200)),
            (false, ask 0x0A000001 "left", some (claimed 0x0A000001 "left" 100))] ∧
          d.shared.now = 100 ∧ d.shared.givenBack = []))) = some (0, true, true) := by decide +kernel
  obtain ⟨b, first, run⟩ := Option.bind_eq_some_iff.1 run
  obtain ⟨c, second, run⟩ := Option.bind_eq_some_iff.1 run
  obtain ⟨d, third, same⟩ := Option.map_eq_some_iff.1 run
  simp only [Prod.mk.injEq, decide_eq_true_iff] at same
  obtain ⟨now, strikes, both⟩ := same
  have start : Scene.Reached (duo.stage False) opened b := played_reached first .opening
  have before : Scene.Reached (duo.stage False) opened c :=
    played_reached second (waited_reached (now ▸ by decide) start)
  exact ⟨c, d, before, played_reached third before, strikes, both⟩

end NetPool.Leasing
