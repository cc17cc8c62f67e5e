import NetPool.Proofs.Lease.Exclusive
import NetPool.Proofs.Nesting

/-! The keys of leases. All of one pool have one length and its alignment, so two of them are the same or
apart, and no lock is needed for that. It is enough that no call writes another key below the pool's. -/

namespace NetPool

variable {ι : Type}

namespace LeasePool

def Slot (l : LeasePool ι) (key : String) : Prop :=
  ∃ subnet, l.pool.isCompatible subnet = true ∧ key = l.layout.subnetKey l.pool.name subnet

/-- Below the pool's there are only the keys of subnets that it could lease. -/
def Slotted (l : LeasePool ι) (entries : List KeyValue) : Prop :=
  ∀ e ∈ entries, startsWith e.key (l.layout.claimStart .subnet l.pool.name) = true → l.Slot e.key

theorem Slotted.disjoint {l : LeasePool ι} {entries : List KeyValue} (slotted : l.Slotted entries)
    {e f : KeyValue} (he : e ∈ entries) (hf : f ∈ entries) {s t : Subnet}
    (first : e.key = l.layout.subnetKey l.pool.name s) (second : f.key = l.layout.subnetKey l.pool.name t)
    (ne : e.key ≠ f.key) : s.overlaps t = false := by
  have fits {e : KeyValue} {s : Subnet} (mem : e ∈ entries)
      (key : e.key = l.layout.subnetKey l.pool.name s) : s.length = l.pool.subnetLen := by
    obtain ⟨u, compatible, same⟩ := slotted e mem (key ▸ startsWith_append _ _)
    cases KeyLayout.subnetKey_inj (key.symm.trans same)
    exact beq_iff_eq.1 (Bool.and_eq_true_iff.1 compatible).1
  apply Subnet.disjoint_of_length ((fits he first).trans (fits hf second).symm)
  rintro rfl
  exact ne (first.trans second.symm)

end LeasePool

namespace Leasing

/-- A store, and callers that have not read or written anything. -/
def start (store : Store) (now : UInt64) : Leasing ι where
  store := store
  now := now
  seen _ := []
  touched _ := []
  granted := []
  givenBack := []
  blind := []

theorem start_fresh {l : LeasePool ι} {store : Store} {now : UInt64}
    (ascending : Store.Ascending store.entries) (dated : ∀ e ∈ store.entries, e.modified ≤ store.revision)
    (slotted : l.Slotted store.entries) : Fresh l (start store now) := by
  refine ⟨ascending, dated, ?_, fun _ => rfl, rfl, rfl⟩
  intro e mem below c read
  obtain ⟨subnet, _, key⟩ := slotted e mem below
  have slot := (SubnetClaim.ofEntry_eq_ok.1 read).1
  rw [key] at slot
  obtain ⟨pool, _, own⟩ := KeyLayout.parseSubnetKey_subnetKey_eq_some.1 slot
  rw [pool, own, key]

/-- A caller writes over keys that he has read, so what he has read matters as well. -/
structure Slotted (l : LeasePool ι) (s : Leasing ι) : Prop where
  stored : l.Slotted s.store.entries
  seen : ∀ i, l.Slotted (s.seen i)

theorem Slotted.wrote {l : LeasePool ι} {i : ι} {s : Leasing ι} (slotted : s.Slotted l)
    {r : StoreRequest} (intends : s.Intends l i r) {key : String} {value : Bytes}
    (writes : r = .create key value ∨ r = .put key value)
    (below : startsWith key (l.layout.claimStart .subnet l.pool.name) = true) : l.Slot key := by
  rcases writes with rfl | rfl
  · obtain ⟨subnet, _, same, compatible, _⟩ := intends
    exact ⟨subnet, compatible, same⟩
  · obtain ⟨e, mem, rfl, _⟩ := Intends.relied intends rfl
    exact slotted.seen i e mem below

variable [DecidableEq ι] {l : LeasePool ι} {punctual : Prop} {i : ι} {s : Leasing ι}

theorem Slotted.served (slotted : s.Slotted l) (asc : Store.Ascending s.store.entries)
    {r : StoreRequest} (intends : s.Intends l i r) {x : Except StoreError r.Result}
    (answer : (s.store.serve r).1 = some x) : (s.served l i r x (s.store.serve r).2).Slotted l := by
  constructor
  · intro e mem below
    change e ∈ (s.store.serve r).2.entries at mem
    rcases s.store.serve_cases r with same | ⟨key, value, writes, stored⟩ | ⟨gone, _, _, stored⟩
    · exact slotted.stored e (same.entries ▸ mem) below
    · rw [stored] at mem
      rcases (Store.mem_write asc).1 mem with rfl | ⟨old, _⟩
      · exact slotted.wrote intends (writes.imp_left And.left) below
      · exact slotted.stored e old below
    · rw [stored] at mem
      exact slotted.stored e (Store.mem_erase.1 mem).1 below
  · intro j e mem
    rcases seen_kept asc answer mem with here | ⟨old, _⟩
    · exact slotted.stored e here
    · exact slotted.seen j e old

theorem Slotted.answered (sound : Sound l punctual s) (slotted : s.Slotted l) {r : Request}
    {x : r.Answer} {t : Leasing ι} (answer : Answers l punctual i s r x t)
    (intends : ∀ q, r = .store q → s.Intends l i q) : t.Slotted l := by
  cases r with
  | store r =>
    rcases answer with ⟨answer, _, rfl⟩ | ⟨_, rfl⟩
    · exact slotted.served sound.ascending (intends r rfl) answer
    · exact slotted
  | now => exact answer.2 ▸ slotted
  | instant | sleep | pick | cache | isLive | chore | apply =>
    have same : t = s := answer
    exact same ▸ slotted

/-- However the requests of all calls mingle, below the pool's there are only the keys of subnets that
it could lease, and different keys are those of disjoint subnets. -/
theorem lease_keys_disjoint {store : Store} {now : UInt64}
    {c : Scene (Leasing ι) ι LeaseCall (Option SubnetClaim)}
    (ascending : Store.Ascending store.entries) (dated : ∀ e ∈ store.entries, e.modified ≤ store.revision)
    (slotted : l.Slotted store.entries)
    (reached : Scene.Reached (l.stage punctual) (start store now) c) :
    l.Slotted c.shared.store.entries ∧
      ∀ e ∈ c.shared.store.entries, ∀ f ∈ c.shared.store.entries, ∀ s t,
        e.key = l.layout.subnetKey l.pool.name s → f.key = l.layout.subnetKey l.pool.name t →
        e.key ≠ f.key → s.overlaps t = false := by
  have fresh : Fresh l (start store now) := start_fresh ascending dated slotted
  have kept : c.shared.Slotted l := by
    refine Agreement.reached_keeps (leasing_kept l punctual) fresh.sound (fun _ => trivial)
      ⟨slotted, fun _ => nofun⟩ ?_ ?_ reached
    · intro i s r x t sound slotted answer does
      exact slotted.answered sound answer does.1
    · rintro s _ slotted ⟨now, _, rfl⟩
      exact ⟨slotted.stored, slotted.seen⟩
  exact ⟨kept.stored, fun e he f hf s t => kept.stored.disjoint he hf⟩

/-! Two callers on a store with a lease of somebody else that has ended. -/

def outlived : Store :=
  (Store.empty 100).write (duo.layout.subnetKey "green" (subnetAt 0x0A000001)) (LeasePool.record "gone" 0)

theorem outlived_begins : Store.Ascending outlived.entries ∧
    (∀ e ∈ outlived.entries, e.modified ≤ outlived.revision) ∧ duo.Slotted outlived.entries := by
  have bare : Store.Ascending (Store.empty 100).entries := .nil
  have only {e : KeyValue} (mem : e ∈ outlived.entries) : e = (Store.empty 100).written
      (duo.layout.subnetKey "green" (subnetAt 0x0A000001)) (LeasePool.record "gone" 0) := by
    rcases (Store.mem_write bare).1 mem with same | ⟨none, _⟩
    · exact same
    · cases none
  refine ⟨Store.write_ascending bare _ _, ?_, ?_⟩
  · intro e mem
    cases only mem
    exact Nat.le_refl _
  · intro e mem _
    cases only mem
    exact ⟨subnetAt 0x0A000001, by decide, rfl⟩

theorem two_lease_keys_disjoint : (Store.Ascending outlived.entries ∧
    (∀ e ∈ outlived.entries, e.modified ≤ outlived.revision) ∧ duo.Slotted outlived.entries) ∧
    ∃ c, Scene.Reached (duo.stage False) (start outlived 0) c ∧
      (c.shared.store.entries.map fun e => (e.key, e.lease)) =
        [(duo.layout.subnetKey "green" (subnetAt 0x0A000001), some ("left", 100)),
          (duo.layout.subnetKey "green" (subnetAt 0x0A000002), some ("right", 100))] ∧
      duo.Slotted c.shared.store.entries ∧
      (subnetAt 0x0A000001).overlaps (subnetAt 0x0A000002) = false := by
  have run : (played False [.call false (ask 0x0A000001 "left"), .call true (ask 0x0A000002 "right"),
        .answer false, .answer true, .answer false, .answer true, .answer false, .answer false,
        .answer true, .answer false, .answer true, .answer true, .finish false, .finish true]
      (Scene.opening (start outlived 0))).map
        (fun c => c.shared.store.entries.map fun e => (e.key, e.lease)) =
      some [(duo.layout.subnetKey "green" (subnetAt 0x0A000001), some ("left", 100)),
        (duo.layout.subnetKey "green" (subnetAt 0x0A000002), some ("right", 100))] := by decide +kernel
  obtain ⟨c, run, keys⟩ := Option.map_eq_some_iff.1 run
  obtain ⟨ascending, dated, begins⟩ := outlived_begins
  have reached : Scene.Reached (duo.stage False) (start outlived 0) c := played_reached run .opening
  obtain ⟨slotted, disjoint⟩ := lease_keys_disjoint ascending dated begins reached
  have first := keys ▸ List.mem_cons_self
  obtain ⟨e, he, first⟩ := List.mem_map.1 first
  have second := keys ▸ List.mem_cons_of_mem _ List.mem_cons_self
  obtain ⟨f, hf, second⟩ := List.mem_map.1 second
  obtain ⟨first, _⟩ := Prod.mk.inj first
  obtain ⟨second, _⟩ := Prod.mk.inj second
  refine ⟨⟨ascending, dated, begins⟩, c, reached, keys, slotted, ?_⟩
  refine disjoint e he f hf _ _ first second fun same => ?_
  rw [first, second] at same
  exact absurd (KeyLayout.subnetKey_inj same) (by decide)

end Leasing

end NetPool
