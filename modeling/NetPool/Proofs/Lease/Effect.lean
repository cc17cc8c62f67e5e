import NetPool.Proofs.Lease.Leasing

/-! What the requests of leasing callers do, and that all stays sound. -/

namespace NetPool.Leasing

variable {ι : Type} [DecidableEq ι] {l : LeasePool ι} {punctual : Prop} {i : ι} {s t : Leasing ι}

/-- A write or a deletion under a key shows: to the caller, and to the owner's other callers. -/
structure Marked (l : LeasePool ι) (i : ι) (t : Leasing ι) (key : String) : Prop where
  forgotten : ∀ e ∈ t.seen i, e.key ≠ key
  touched : ∀ j, j ≠ i → l.owner j = l.owner i → key ∈ t.touched j

structure Grants (l : LeasePool ι) (i : ι) (s t : Leasing ι) (key : String) (ends : UInt64) : Prop where
  written : ∃ e, e.key = key ∧ e.lease = some (l.owner i, ends) ∧ e.modified = s.store.revision + 1 ∧
    ∀ f, f ∈ t.store.entries ↔ f = e ∨ f ∈ s.store.entries ∧ f.key ≠ key
  granted : t.granted = ⟨l.owner i, key, ends⟩ :: s.granted
  revision : t.store.revision = s.store.revision + 1
  canonical : ∃ pool subnet, key = l.layout.subnetKey pool subnet
  bounded : ends ≤ l.ending (l.owner i) s.now
  marked : Marked l i t key

structure Deletes (l : LeasePool ι) (i : ι) (s t : Leasing ι) (gone : KeyValue) : Prop where
  here : gone ∈ s.store.entries
  left : ∀ f, f ∈ t.store.entries ↔ f ∈ s.store.entries ∧ f.key ≠ gone.key
  revision : t.store.revision = s.store.revision + 1
  marked : Marked l i t gone.key

/-- What a request to the store does, if it is as intended. -/
inductive Effect (l : LeasePool ι) (i : ι) (s t : Leasing ι) : Prop
  | nothing (entries : t.store.entries = s.store.entries)
      (revision : t.store.revision = s.store.revision) (granted : ∀ g ∈ t.granted, g ∈ s.granted)
  | created (subnet : Subnet) (ends : UInt64) (compatible : l.pool.isCompatible subnet = true)
      (free : ∀ e ∈ s.store.entries, e.key ≠ l.layout.subnetKey l.pool.name subnet)
      (grants : Grants l i s t (l.layout.subnetKey l.pool.name subnet) ends)
  | put (key : String) (ends : UInt64) (grants : Grants l i s t key ends)
      (sees : t.blind = [] → s.sees l i key = true)
      (later : ∀ e ∈ s.seen i, e.key = key → e ∈ s.store.entries →
        ∀ g ∈ s.granted, g.key = key → g.owner = l.owner i → g.ends ≤ ends)
  | released (gone : KeyValue) (deletes : Deletes l i s t gone)
      (sees : t.blind = [] → s.sees l i gone.key = true)
      (granted : ∀ g ∈ t.granted, g ∈ s.granted ∧ ¬ (g.owner = l.owner i ∧ g.key = gone.key))
  | reaped (gone : KeyValue) (deletes : Deletes l i s t gone) (c : SubnetClaim)
      (read : SubnetClaim.ofEntry l.layout gone = .ok c)
      (reason : c.isExpired s.now = true ∨ c.owner = l.owner i ∧ l.pool.isCompatible c.subnet = false)
      (granted : t.granted = s.granted)

omit [DecidableEq ι] in
theorem sees_iff {key : String} : s.sees l i key = true ↔
    ∃ e ∈ s.seen i, e.key = key ∧ (∃ ends, e.lease = some (l.owner i, ends)) ∧ e ∈ s.store.entries := by
  simp [sees, heldBy_some, and_assoc]

theorem seen_served {r : StoreRequest} {x : Except StoreError r.Result} {store : Store} {j : ι}
    {e : KeyValue} (mem : e ∈ (s.served l i r x store).seen j) :
    (∃ found, r.read x = some found ∧ e ∈ found) ∨
      e ∈ s.seen j ∧ (j = i → r.read x = none ∧ r.wrote x ≠ some e.key) := by
  by_cases mine : j = i
  · subst mine
    simp only [served, if_true] at mem
    cases found : r.read x with
    | some found' =>
      rw [found] at mem
      exact .inl ⟨found', rfl, mem⟩
    | none =>
      rw [found, Option.getD_none, List.mem_filter, decide_eq_true_iff] at mem
      exact .inr ⟨mem.1, fun _ => ⟨rfl, fun wrote => mem.2 wrote.symm⟩⟩
  · simp only [served, if_neg mine] at mem
    exact .inr ⟨mem, fun same => absurd same mine⟩

theorem marked_served {r : StoreRequest} {x : Except StoreError r.Result} {store : Store}
    {key : String} (wrote : r.wrote x = some key) : Marked l i (s.served l i r x store) key := by
  have unread : r.read x = none := by
    cases r with
    | range | get => cases x <;> cases wrote
    | create | put | delete | compareAndDelete | watch | lock | unlock => rfl
  refine ⟨fun e mem same => ?_, fun j other owner => ?_⟩
  · rcases seen_served mem with ⟨found, read, _⟩ | ⟨_, mine⟩
    · rw [unread] at read
      cases read
    · exact (mine rfl).2 (same ▸ wrote)
  · simp only [served, if_neg other, owner, if_true, wrote]
    exact List.mem_cons_self

theorem sees_of_blind {r : StoreRequest} {x : Except StoreError r.Result} {store : Store}
    {key : String} (wrote : r.wrote x = some key) (puts : overwrites r = some key)
    (clear : (s.served l i r x store).blind = []) : s.sees l i key = true := by
  cases seen : s.sees l i key with
  | true => rfl
  | false => simp [served, puts, wrote, seen] at clear

omit [DecidableEq ι] in
theorem grant_of_unwritten {r : StoreRequest} {x : Except StoreError r.Result}
    (unwritten : r.wrote x = none) : grant r x = none := by
  cases r with
  | create =>
    cases x with
    | error => rfl
    | ok outcome => cases outcome <;> first | rfl | cases unwritten
  | put => cases x <;> first | rfl | cases unwritten
  | range | get | delete | compareAndDelete | watch | lock | unlock => rfl

omit [DecidableEq ι] in
theorem grant_of_wrote {r : StoreRequest} {x : Except StoreError r.Result} {key owner : String}
    {value : Bytes} {ends : UInt64} (wrote : r.wrote x = some key)
    (writes : r = .create key value ∨ r = .put key value) (lease : leaseOf value = some (owner, ends)) :
    grant r x = some ⟨owner, key, ends⟩ := by
  rcases writes with rfl | rfl
  · cases x with
    | error => cases wrote
    | ok outcome =>
      cases outcome with
      | created => simp [grant, lease]
      | alreadyExists => cases wrote
  · cases x with
    | error => cases wrote
    | ok => simp [grant, lease]

theorem grants_served {r : StoreRequest} {x : Except StoreError r.Result}
    (asc : Store.Ascending s.store.entries) {key : String} {value : Bytes} {ends : UInt64}
    (wrote : r.wrote x = some key) (writes : r = .create key value ∨ r = .put key value)
    (stored : (s.store.serve r).2 = s.store.write key value)
    (record : value = LeasePool.record (l.owner i) ends)
    (canonical : ∃ pool subnet, key = l.layout.subnetKey pool subnet)
    (bounded : ends ≤ l.ending (l.owner i) s.now) :
    Grants l i s (s.served l i r x (s.store.serve r).2) key ends := by
  have lease : leaseOf value = some (l.owner i, ends) := record ▸ leaseOf_record _ _
  have entries : ∀ f, f ∈ (s.store.serve r).2.entries ↔
      f = s.store.written key value ∨ f ∈ s.store.entries ∧ f.key ≠ key := by
    intro f
    rw [stored]
    exact Store.mem_write asc
  have revision : (s.store.serve r).2.revision = s.store.revision + 1 := by
    rw [stored]
    rfl
  have kept : (s.granted.filter fun g => ! gaveBack (l.owner i) r x g) = s.granted := by
    rcases writes with rfl | rfl <;> simp [gaveBack]
  refine ⟨⟨s.store.written key value, rfl, lease, rfl, entries⟩, ?_, revision, canonical, bounded,
    marked_served wrote⟩
  simp only [served, grant_of_wrote wrote writes lease, kept]
  rfl

theorem deletes_served {r : StoreRequest} {x : Except StoreError r.Result} {gone : KeyValue}
    (here : gone ∈ s.store.entries) (wrote : r.wrote x = some gone.key)
    (stored : (s.store.serve r).2 = s.store.erase gone) :
    Deletes l i s (s.served l i r x (s.store.serve r).2) gone := by
  refine ⟨here, fun f => ?_, ?_, marked_served wrote⟩
  · change f ∈ (s.store.serve r).2.entries ↔ _
    rw [stored]
    exact Store.mem_erase
  · change (s.store.serve r).2.revision = _
    rw [stored]
    rfl

theorem effect_served {r : StoreRequest} {x : Except StoreError r.Result}
    (asc : Store.Ascending s.store.entries)
    (seen : ∀ e ∈ s.seen i, ∀ f ∈ s.store.entries, f.key = e.key → f.modified = e.modified → f = e)
    (intends : s.Intends l i r) (answer : (s.store.serve r).1 = some x) :
    Effect l i s (s.served l i r x (s.store.serve r).2) := by
  rcases Store.serve_wrote answer with ⟨none, same⟩ | ⟨key, value, wrote, writes, stored⟩ |
    ⟨gone, wrote, deletes, found, stored⟩
  · refine .nothing same.entries same.revision fun g mem => ?_
    simp only [served, grant_of_unwritten none, Option.toList_none, List.nil_append] at mem
    exact (List.mem_filter.1 mem).1
  · rcases writes with ⟨rfl, free⟩ | rfl
    · obtain ⟨subnet, ends, rfl, compatible, record, bounded⟩ := intends
      refine .created subnet ends compatible (fun e mem same => ?_)
        (grants_served asc wrote (.inl rfl) stored record ⟨_, _, rfl⟩ bounded)
      rw [(Store.find?_eq_some_iff asc).2 ⟨mem, same⟩] at free
      cases free
    · obtain ⟨pool, subnet, ends, canonical, record, bounded, _, later⟩ := intends
      exact .put key ends (grants_served asc wrote (.inr rfl) stored record ⟨pool, subnet, canonical⟩
        bounded) (sees_of_blind wrote rfl) later
  · have here : gone ∈ s.store.entries := ((Store.find?_eq_some_iff asc).1 found).1
    have removed := deletes_served (l := l) (i := i) here wrote stored
    rcases deletes with rfl | rfl
    · refine .released gone removed (sees_of_blind wrote rfl) fun g mem => ?_
      cases x with
      | error => cases wrote
      | ok done =>
        simp only [served, grant, Option.toList_none, List.nil_append, List.mem_filter, gaveBack,
          Bool.not_eq_true', Bool.and_eq_false_iff, decide_eq_false_iff_not] at mem
        exact ⟨mem.1, fun both => mem.2.elim (absurd both.1) (absurd both.2)⟩
    · obtain ⟨e, mem, key, modified, c, read, reason⟩ := intends
      have same : gone = e := seen e mem gone here key.symm modified.symm
      exact .reaped gone removed c (same ▸ read) reason (by simp [served, grant, gaveBack])

theorem seen_kept {r : StoreRequest} {x : Except StoreError r.Result}
    (asc : Store.Ascending s.store.entries) (answer : (s.store.serve r).1 = some x) {j : ι}
    {e : KeyValue} (mem : e ∈ (s.served l i r x (s.store.serve r).2).seen j) :
    e ∈ s.store.entries ∨ e ∈ s.seen j ∧
      (e.key ∈ s.touched j → e.key ∈ (s.served l i r x (s.store.serve r).2).touched j) := by
  rcases seen_served mem with ⟨found, read, mem⟩ | ⟨mem, mine⟩
  · exact .inl (Store.mem_of_read asc answer read mem)
  · refine .inr ⟨mem, fun touched => ?_⟩
    by_cases same : j = i
    · subst same
      simpa [served, (mine rfl).1] using touched
    · simp only [served, if_neg same]
      split
      · exact List.mem_append_right _ touched
      · exact touched

/-! What an effect leaves. -/

omit [DecidableEq ι] in
theorem Effect.old (effect : Effect l i s t) {f : KeyValue} (mem : f ∈ t.store.entries)
    (old : f.modified ≤ s.store.revision) : f ∈ s.store.entries := by
  have unless_written {key : String} {ends : UInt64} (grants : Grants l i s t key ends) :
      f ∈ s.store.entries := by
    obtain ⟨e, _, _, modified, entries⟩ := grants.written
    rcases (entries f).1 mem with rfl | ⟨here, _⟩
    · omega
    · exact here
  cases effect with
  | nothing entries => exact entries ▸ mem
  | created _ _ _ _ grants => exact unless_written grants
  | put _ _ grants => exact unless_written grants
  | released _ deletes => exact ((deletes.left f).1 mem).1
  | reaped _ deletes => exact ((deletes.left f).1 mem).1

omit [DecidableEq ι] in
theorem Effect.revision (effect : Effect l i s t) : s.store.revision ≤ t.store.revision := by
  cases effect with
  | nothing _ revision => omega
  | created _ _ _ _ grants => have := grants.revision; omega
  | put _ _ grants => have := grants.revision; omega
  | released _ deletes => have := deletes.revision; omega
  | reaped _ deletes => have := deletes.revision; omega

omit [DecidableEq ι] in
/-- A caller that still sees a lease of his owner finds no other entry under the key. -/
theorem lease_of_sees (asc : Store.Ascending s.store.entries) {key : String}
    (sees : s.sees l i key = true) {e : KeyValue} (mem : e ∈ s.store.entries) (same : e.key = key) :
    e ∈ s.seen i ∧ ∃ ends, e.lease = some (l.owner i, ends) := by
  obtain ⟨e', seen, key', lease, here⟩ := sees_iff.1 sees
  cases asc.eq_of_key here mem (key'.trans same.symm)
  exact ⟨seen, lease⟩

omit [DecidableEq ι] in
/-- What bears the mark of a write by another is not a lease that an owner's caller still knows. -/
theorem Marked.not_known {key : String} (marked : Marked l i t key) {j : ι} {e : KeyValue}
    (mem : e ∈ t.seen j) (same : e.key = key) (owner : l.owner j = l.owner i)
    (left : e.key ∉ t.touched j) : False := by
  by_cases mine : j = i
  · exact marked.forgotten e (mine ▸ mem) same
  · exact left (same ▸ marked.touched j mine owner)

omit [DecidableEq ι] in
/-- A lease that a caller may rely on stays where it is. -/
theorem Effect.current (effect : Effect l i s t) (asc : Store.Ascending s.store.entries)
    (blind : t.blind = []) {j : ι} {e : KeyValue} {ends : UInt64} (mem : e ∈ t.seen j)
    (lease : e.lease = some (l.owner j, ends)) (lasts : s.now < ends) (left : e.key ∉ t.touched j)
    (here : e ∈ s.store.entries) : e ∈ t.store.entries := by
  have owned {o : String} {u : UInt64} (other : e.lease = some (o, u)) : l.owner j = o ∧ ends = u :=
    KeyValue.lease_inj lease other
  cases effect with
  | nothing entries => exact entries ▸ here
  | created subnet _ _ free grants =>
    obtain ⟨_, _, _, _, entries⟩ := grants.written
    exact (entries e).2 (.inr ⟨here, free e here⟩)
  | put key _ grants sees =>
    obtain ⟨_, _, _, _, entries⟩ := grants.written
    refine (entries e).2 (.inr ⟨here, fun same => ?_⟩)
    obtain ⟨_, _, other⟩ := lease_of_sees asc (sees blind) here same
    exact grants.marked.not_known mem same (owned other).1 left
  | released gone deletes sees =>
    refine (deletes.left e).2 ⟨here, fun same => ?_⟩
    obtain ⟨_, _, other⟩ := lease_of_sees asc (sees blind) here same
    exact deletes.marked.not_known mem same (owned other).1 left
  | reaped gone deletes c read reason =>
    refine (deletes.left e).2 ⟨here, fun same => ?_⟩
    cases asc.eq_of_key here deletes.here same
    obtain ⟨owner, expiration⟩ := owned (SubnetClaim.ofEntry_eq_ok.1 read).2
    rcases reason with expired | ⟨mine, _⟩
    · have ended : c.expiration ≤ s.now := of_decide_eq_true expired
      exact absurd (expiration ▸ lasts) (UInt64.not_lt.2 ended)
    · exact deletes.marked.not_known mem same (owner.trans mine) left

omit [DecidableEq ι] in
theorem Backed.elsewhere {g : Lease} (backed : s.Backed l g)
    (same : ∀ f, f.key = g.key → (f ∈ t.store.entries ↔ f ∈ s.store.entries)) : t.Backed l g := by
  rcases backed with ⟨e, here, key, lease⟩ | ⟨absent, never⟩
  · exact .inl ⟨e, (same e key).2 here, key, lease⟩
  · exact .inr ⟨fun f mem key => absent f ((same f key).1 mem) key, never⟩

omit [DecidableEq ι] in
theorem Backed.entry (asc : Store.Ascending s.store.entries) {g : Lease} (backed : s.Backed l g)
    {e : KeyValue} (here : e ∈ s.store.entries) (key : e.key = g.key) :
    ∃ ends, e.lease = some (g.owner, ends) ∧ g.ends ≤ ends := by
  rcases backed with ⟨f, mem, same, lease⟩ | ⟨absent, _⟩
  · cases asc.eq_of_key mem here (same.trans key.symm)
    exact lease
  · exact absurd key (absent e here)

omit [DecidableEq ι] in
theorem Grants.elsewhere {key : String} {ends : UInt64} (grants : Grants l i s t key ends) {g : Lease}
    (backed : s.Backed l g) (other : g.key ≠ key) : t.Backed l g := by
  obtain ⟨e, here, _, _, entries⟩ := grants.written
  refine backed.elsewhere fun f same => (entries f).trans ⟨fun mem => ?_, fun mem => ?_⟩
  · rcases mem with rfl | ⟨mem, _⟩
    · exact absurd (same.symm.trans here) other
    · exact mem
  · exact .inr ⟨mem, fun there => other (same.symm.trans there)⟩

omit [DecidableEq ι] in
theorem Grants.backed {key : String} {ends : UInt64} (grants : Grants l i s t key ends) {g : Lease}
    (same : g.key = key) (owner : g.owner = l.owner i) (le : g.ends ≤ ends) : t.Backed l g := by
  obtain ⟨e, here, lease, _, entries⟩ := grants.written
  exact .inl ⟨e, (entries e).2 (.inl rfl), here.trans same.symm, ends, owner ▸ lease, le⟩

omit [DecidableEq ι] in
theorem Backed.not_free {g : Lease} (backed : s.Backed l g) {subnet : Subnet}
    (compatible : l.pool.isCompatible subnet = true)
    (free : ∀ e ∈ s.store.entries, e.key ≠ l.layout.subnetKey l.pool.name subnet) :
    g.key ≠ l.layout.subnetKey l.pool.name subnet := by
  rcases backed with ⟨e, here, key, _⟩ | ⟨_, never⟩
  · exact fun same => free e here (key.trans same)
  · exact never subnet compatible

omit [DecidableEq ι] in
theorem Effect.backed (effect : Effect l i s t) (asc : Store.Ascending s.store.entries)
    (clear : s.Clear l) (blind : t.blind = []) {g : Lease} (mem : g ∈ t.granted)
    (lasts : s.now < g.ends) : t.Backed l g := by
  have deleted {gone : KeyValue} (deletes : Deletes l i s t gone) (backed : s.Backed l g)
      (other : g.key ≠ gone.key) : t.Backed l g := by
    refine backed.elsewhere fun f same => (deletes.left f).trans ⟨And.left, fun mem => ⟨mem, ?_⟩⟩
    exact fun there => other (same.symm.trans there)
  cases effect with
  | nothing entries _ granted =>
    exact (clear.backed g (granted g mem) lasts).elsewhere fun f _ => by rw [entries]
  | created subnet ends compatible free grants =>
    rw [grants.granted] at mem
    rcases List.mem_cons.1 mem with rfl | mem
    · exact grants.backed rfl rfl (UInt64.le_refl _)
    · have backed := clear.backed g mem lasts
      exact grants.elsewhere backed (backed.not_free compatible free)
  | put key ends grants sees later =>
    rw [grants.granted] at mem
    rcases List.mem_cons.1 mem with rfl | mem
    · exact grants.backed rfl rfl (UInt64.le_refl _)
    · have backed := clear.backed g mem lasts
      by_cases same : g.key = key
      · obtain ⟨e, seen, here, ⟨before, lease⟩, stands⟩ := sees_iff.1 (sees blind)
        obtain ⟨_, owned, _⟩ := backed.entry asc stands (here.trans same.symm)
        have owner : g.owner = l.owner i := (KeyValue.lease_inj owned lease).1
        exact grants.backed same owner (later e seen here stands g mem same owner)
      · exact grants.elsewhere backed same
  | released gone deletes sees granted =>
    obtain ⟨mem, kept⟩ := granted g mem
    have backed := clear.backed g mem lasts
    refine deleted deletes backed fun same => kept ⟨?_, same⟩
    obtain ⟨_, _, lease⟩ := lease_of_sees asc (sees blind) deletes.here rfl
    obtain ⟨_, owned, _⟩ := backed.entry asc deletes.here same.symm
    exact (KeyValue.lease_inj owned lease).1
  | reaped gone deletes c read reason granted =>
    have backed := clear.backed g (granted ▸ mem) lasts
    by_cases same : g.key = gone.key
    · obtain ⟨slot, lease⟩ := SubnetClaim.ofEntry_eq_ok.1 read
      obtain ⟨ends, owned, le⟩ := backed.entry asc deletes.here same.symm
      obtain ⟨_, rfl⟩ := KeyValue.lease_inj owned lease
      refine .inr ⟨fun f mem here => ((deletes.left f).1 mem).2 (here.trans same), ?_⟩
      intro subnet compatible never
      have key := never.symm.trans same
      rcases reason with expired | ⟨_, incompatible⟩
      · have ended : c.expiration ≤ s.now := of_decide_eq_true expired
        exact absurd (UInt64.lt_of_lt_of_le lasts le) (UInt64.not_lt.2 ended)
      · rw [← key] at slot
        obtain ⟨_, _, own⟩ := KeyLayout.parseSubnetKey_subnetKey_eq_some.1 slot
        rw [own, compatible] at incompatible
        cases incompatible
    · exact deleted deletes backed same

omit [DecidableEq ι] in
theorem Effect.single (effect : Effect l i s t) (asc : Store.Ascending s.store.entries)
    (clear : s.Clear l) (blind : t.blind = []) {g h : Lease} (hg : g ∈ t.granted) (hh : h ∈ t.granted)
    (same : g.key = h.key) (first : s.now < g.ends) (second : s.now < h.ends) : g.owner = h.owner := by
  have old (mg : g ∈ s.granted) (mh : h ∈ s.granted) := clear.single g mg h mh same first second
  -- Under the key of a grant only the owner himself has leases left.
  have granted {key : String} {ends : UInt64} (grants : Grants l i s t key ends)
      (own : ∀ g ∈ s.granted, g.key = key → s.now < g.ends → g.owner = l.owner i) :
      g.owner = h.owner := by
    rw [grants.granted] at hg hh
    rcases List.mem_cons.1 hg with rfl | mg
    · rcases List.mem_cons.1 hh with rfl | mh
      · rfl
      · exact (own h mh same.symm second).symm
    · rcases List.mem_cons.1 hh with rfl | mh
      · exact own g mg same first
      · exact old mg mh
  cases effect with
  | nothing _ _ granted => exact old (granted g hg) (granted h hh)
  | created subnet ends compatible free grants =>
    refine granted grants fun g mem here lasts => ?_
    exact absurd here ((clear.backed g mem lasts).not_free compatible free)
  | put key ends grants sees =>
    refine granted grants fun g mem here lasts => ?_
    obtain ⟨e, seen, key, ⟨before, lease⟩, stands⟩ := sees_iff.1 (sees blind)
    obtain ⟨_, owned, _⟩ := (clear.backed g mem lasts).entry asc stands (key.trans here.symm)
    exact (KeyValue.lease_inj owned lease).1
  | released _ _ _ granted => exact old (granted g hg).1 (granted h hh).1
  | reaped _ _ _ _ _ granted => exact old (granted ▸ hg) (granted ▸ hh)

/-! Requests and the time keep what is shared sound. -/

theorem Sound.effect (sound : Sound l punctual s) {r : StoreRequest} {x : Except StoreError r.Result}
    (intends : s.Intends l i r) (answer : (s.store.serve r).1 = some x) :
    Effect l i s (s.served l i r x (s.store.serve r).2) :=
  effect_served sound.ascending (sound.same i) intends answer

omit [DecidableEq ι] in
theorem Effect.canonical (effect : Effect l i s t) (sound : Sound l punctual s) {e : KeyValue}
    (mem : e ∈ t.store.entries)
    (below : startsWith e.key (l.layout.claimStart .subnet l.pool.name) = true) {c : SubnetClaim}
    (read : SubnetClaim.ofEntry l.layout e = .ok c) : l.layout.subnetKey c.pool c.subnet = e.key := by
  have old (here : e ∈ s.store.entries) := sound.canonical e here below c read
  have granted {key : String} {ends : UInt64} (grants : Grants l i s t key ends) :
      l.layout.subnetKey c.pool c.subnet = e.key := by
    obtain ⟨f, here, _, _, entries⟩ := grants.written
    rcases (entries e).1 mem with rfl | ⟨before, _⟩
    · obtain ⟨pool, subnet, key⟩ := grants.canonical
      have slot := (SubnetClaim.ofEntry_eq_ok.1 read).1
      rw [here, key] at slot
      obtain ⟨same, _, own⟩ := KeyLayout.parseSubnetKey_subnetKey_eq_some.1 slot
      rw [same, own, here, key]
    · exact old before
  cases effect with
  | nothing entries => exact old (entries ▸ mem)
  | created _ _ _ _ grants => exact granted grants
  | put _ _ grants => exact granted grants
  | released _ deletes => exact old ((deletes.left e).1 mem).1
  | reaped _ deletes => exact old ((deletes.left e).1 mem).1

omit [DecidableEq ι] in
theorem Effect.dated (effect : Effect l i s t) (dated : ∀ e ∈ s.store.entries, e.modified ≤ s.store.revision)
    {e : KeyValue} (mem : e ∈ t.store.entries) : e.modified ≤ t.store.revision := by
  by_cases old : e.modified ≤ s.store.revision
  · exact Nat.le_trans old effect.revision
  · have granted {key : String} {ends : UInt64} (grants : Grants l i s t key ends) :
        e.modified ≤ t.store.revision := by
      obtain ⟨f, _, _, modified, entries⟩ := grants.written
      rcases (entries e).1 mem with rfl | ⟨before, _⟩
      · exact Nat.le_of_eq (modified.trans grants.revision.symm)
      · exact absurd (dated e before) old
    cases effect with
    | nothing entries => exact absurd (dated e (entries ▸ mem)) old
    | created _ _ _ _ grants => exact granted grants
    | put _ _ grants => exact granted grants
    | released _ deletes => exact absurd (dated e ((deletes.left e).1 mem).1) old
    | reaped _ deletes => exact absurd (dated e ((deletes.left e).1 mem).1) old

omit [DecidableEq ι] in
/-- What is granted anew is the caller's own, and the entry under its key is new. -/
theorem Effect.granted (effect : Effect l i s t) {g : Lease} (mem : g ∈ t.granted) :
    g ∈ s.granted ∨ g.owner = l.owner i ∧ g.ends ≤ l.ending g.owner s.now ∧
      ∀ f ∈ t.store.entries, f.key = g.key → s.store.revision < f.modified := by
  have granted {key : String} {ends : UInt64} (grants : Grants l i s t key ends) :
      g ∈ s.granted ∨ g.owner = l.owner i ∧ g.ends ≤ l.ending g.owner s.now ∧
        ∀ f ∈ t.store.entries, f.key = g.key → s.store.revision < f.modified := by
    rw [grants.granted] at mem
    rcases List.mem_cons.1 mem with rfl | old
    · refine .inr ⟨rfl, grants.bounded, fun f here same => ?_⟩
      obtain ⟨e, _, _, modified, entries⟩ := grants.written
      rcases (entries f).1 here with rfl | ⟨_, other⟩
      · omega
      · exact absurd same other
    · exact .inl old
  cases effect with
  | nothing _ _ granted => exact .inl (granted g mem)
  | created _ _ _ _ grants => exact granted grants
  | put _ _ grants => exact granted grants
  | released _ _ _ granted => exact .inl (granted g mem).1
  | reaped _ _ _ _ _ granted => exact .inl (granted ▸ mem)

omit [DecidableEq ι] in
theorem Intends.relied {r : StoreRequest} (intends : s.Intends l i r) {key : String}
    (puts : overwrites r = some key) :
    ∃ e ∈ s.seen i, e.key = key ∧ ∃ ends, e.lease = some (l.owner i, ends) := by
  cases r with
  | put k v =>
    cases puts
    obtain ⟨_, _, _, _, _, _, basis, _⟩ := intends
    exact basis
  | delete k =>
    cases puts
    exact intends
  | range | get | create | compareAndDelete | watch | lock | unlock => cases puts

theorem Sound.served (sound : Sound l punctual s) {r : StoreRequest} {x : Except StoreError r.Result}
    (intends : s.Intends l i r) (answer : (s.store.serve r).1 = some x)
    (prompt : punctual → s.OnTime l i r) : Sound l punctual (s.served l i r x (s.store.serve r).2) := by
  have effect := sound.effect intends answer
  have read {j : ι} {e : KeyValue} (mem : e ∈ (s.served l i r x (s.store.serve r).2).seen j) :
      e.modified ≤ s.store.revision := by
    rcases seen_kept sound.ascending answer mem with here | ⟨seen, _⟩
    · exact sound.dated e here
    · exact sound.read j e seen
  refine ⟨Store.serve_ascending sound.ascending r, fun e mem below c => effect.canonical sound mem below,
    fun e => effect.dated sound.dated, fun j e mem => Nat.le_trans (read mem) effect.revision,
    fun j e mem f here key modified => ?_, fun g mem => ?_, fun blind => ?_, fun sure => ?_⟩
  · have old := effect.old here (modified ▸ read mem)
    rcases seen_kept sound.ascending answer mem with there | ⟨seen, _⟩
    · exact sound.ascending.eq_of_key old there key
    · exact sound.same j e seen f old key modified
  · rcases effect.granted mem with old | ⟨_, bounded, _⟩
    · exact sound.bounded g old
    · exact bounded
  · have before : s.blind = [] := (List.append_eq_nil_iff.1 blind).2
    have clear := sound.clear before
    refine ⟨fun j e mem ends lease lasts left => ?_, fun g mem lasts =>
      effect.backed sound.ascending clear blind mem lasts, fun g hg h hh =>
      effect.single sound.ascending clear blind hg hh⟩
    refine effect.current sound.ascending blind mem lease lasts left ?_
    rcases seen_kept sound.ascending answer mem with here | ⟨seen, touched⟩
    · exact here
    · exact clear.current j e seen ends lease lasts fun old => left (touched old)
  · have before := sound.sighted sure
    refine List.append_eq_nil_iff.2 ⟨?_, before⟩
    -- On time, a lease relied on is still seen.
    cases puts : overwrites r with
    | none => rfl
    | some key =>
      obtain ⟨e, mem, rfl, ends, lease⟩ := Intends.relied intends puts
      obtain ⟨lasts, left⟩ := prompt sure e.key puts e mem rfl _ lease rfl
      have here := (sound.clear before).current i e mem ends lease lasts left
      have sees : s.sees l i e.key = true := sees_iff.2 ⟨e, mem, rfl, ⟨ends, lease⟩, here⟩
      simp [sees]

theorem grows_served {r : StoreRequest} {x : Except StoreError r.Result} {store : Store} :
    Grows s (s.served l i r x store) := by
  rintro g (held | back)
  · by_cases gone : gaveBack (l.owner i) r x g = true
    · exact .inr (List.mem_append_left _ (List.mem_filter.2 ⟨held, gone⟩))
    · exact .inl (List.mem_append_right _ (List.mem_filter.2 ⟨held, by simpa using gone⟩))
  · exact .inr (List.mem_append_right _ back)

theorem Sound.rely (sound : Sound l punctual s) {r : StoreRequest} {x : Except StoreError r.Result}
    (intends : s.Intends l i r) (answer : (s.store.serve r).1 = some x) {j : ι} (other : j ≠ i) :
    Rely j s (s.served l i r x (s.store.serve r).2) := by
  have effect := sound.effect intends answer
  refine ⟨if_neg other, UInt64.le_refl _, grows_served, fun e mem here => ?_⟩
  refine ⟨effect.old here (sound.read j e mem), fun g granted same => ?_⟩
  rcases effect.granted granted with old | ⟨_, _, new⟩
  · exact old
  · have fresh := new e here same.symm
    have stale := sound.read j e mem
    omega

end NetPool.Leasing

namespace NetPool

theorem Clock.addSaturating_toNat (now ms : UInt64) :
    (addSaturating now ms).toNat = min (now.toNat + ms.toNat) (2 ^ 64 - 1) := by
  have size : UInt64.size = 2 ^ 64 := rfl
  have most : (0xFFFFFFFFFFFFFFFF : UInt64).toNat = 2 ^ 64 - 1 := rfl
  unfold addSaturating
  split
  · rw [UInt64.toNat_add]
    omega
  · rw [most]
    omega

theorem Clock.addSaturating_mono {a b : UInt64} (le : a ≤ b) (ms : UInt64) :
    addSaturating a ms ≤ addSaturating b ms := by
  rw [UInt64.le_iff_toNat_le] at le ⊢
  rw [addSaturating_toNat, addSaturating_toNat]
  omega

namespace Leasing

variable {ι : Type} {l : LeasePool ι} {punctual : Prop} {s : Leasing ι}

theorem Sound.later (sound : Sound l punctual s) {now : UInt64} (le : s.now ≤ now) :
    Sound l punctual { s with now } := by
  refine ⟨sound.ascending, sound.canonical, sound.dated, sound.read, sound.same, fun g mem => ?_,
    fun blind => ?_, sound.sighted⟩
  · exact UInt64.le_trans (sound.bounded g mem) (Clock.addSaturating_mono le _)
  · obtain ⟨current, backed, single⟩ := sound.clear blind
    have before {ends : UInt64} (lasts : now < ends) : s.now < ends := UInt64.lt_of_le_of_lt le lasts
    exact ⟨fun i e mem ends lease lasts => current i e mem ends lease (before lasts),
      fun g mem lasts => backed g mem (before lasts),
      fun g hg h hh same first second => single g hg h hh same (before first) (before second)⟩

end Leasing

end NetPool
