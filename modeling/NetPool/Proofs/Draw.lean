import Mathlib.Data.List.Basic
import Mathlib.Data.List.Perm.Subperm
import NetPool.Allocation.Pin
import NetPool.Proofs.Interference
import NetPool.Proofs.Running
import NetPool.Proofs.Search

/-! Free addresses by their number and by draw. Gaps stand for the list of the addresses in them: the count
is its length, an index is looked up in it, and a draw comes to any of its members. -/

namespace NetPool

namespace AddressRange

/-- The addresses of a range in their order. -/
def addresses (r : AddressRange) : List Address :=
  (List.range' r.start.toNat r.size.toNat).map UInt32.ofNat

variable {r : AddressRange}

theorem length_addresses : r.addresses.length = r.size.toNat := by
  rw [addresses, List.length_map, List.length_range']

/-- The numbers in a range are those of its addresses. -/
theorem mem_numbers {n : Nat} :
    n ∈ List.range' r.start.toNat r.size.toNat ↔ r.start.toNat ≤ n ∧ n ≤ r.stop.toNat := by
  have ordered := r.start_le
  rw [List.mem_range'_1, size_toNat]
  omega

theorem toNat_number {n : Nat} (mem : n ∈ List.range' r.start.toNat r.size.toNat) :
    (UInt32.ofNat n).toNat = n :=
  UInt32.toNat_ofNat_of_lt' (Nat.lt_of_le_of_lt (mem_numbers.1 mem).2 r.stop.toNat_lt)

theorem mem_addresses {a : Address} : a ∈ r.addresses ↔ r.contains a = true := by
  rw [addresses, List.mem_map, contains_iff, ← mem_numbers]
  constructor
  · rintro ⟨n, mem, rfl⟩
    rwa [toNat_number mem]
  · exact fun mem => ⟨a.toNat, mem, UInt32.ofNat_toNat⟩

theorem addresses_ascending (r : AddressRange) : r.addresses.Pairwise (· < ·) := by
  refine List.pairwise_map.2 (List.Pairwise.imp_of_mem (fun here there lt => ?_)
    List.pairwise_lt_range')
  rwa [UInt32.lt_iff_toNat_lt, toNat_number here, toNat_number there]

theorem offset?_eq {i : UInt64} (within : i < r.size) :
    offset? r.start i = r.addresses[i.toNat]? := by
  have within := UInt64.lt_iff_toNat_lt.1 within
  have mem : r.start.toNat + i.toNat ∈ List.range' r.start.toNat r.size.toNat := by
    rw [List.mem_range'_1]
    omega
  rw [addresses, List.getElem?_map, List.getElem?_range' within, Nat.one_mul]
  exact offset?_eq_some.2 (toNat_number mem)

end AddressRange

namespace Search

/-- The addresses in gaps, one gap after the other. -/
def addresses (gaps : List AddressRange) : List Address := gaps.flatMap (·.addresses)

theorem nthFree_eq (gaps : List AddressRange) (i : UInt64) :
    nthFree gaps i = (addresses gaps)[i.toNat]? := by
  induction gaps generalizing i with
  | nil => rfl
  | cons g gaps ih =>
    have length : g.addresses.length = g.size.toNat := AddressRange.length_addresses
    rw [addresses, List.flatMap_cons]
    unfold nthFree
    split
    · rename_i within
      rw [List.getElem?_append_left (length ▸ UInt64.lt_iff_toNat_lt.1 within)]
      exact AddressRange.offset?_eq within
    · rename_i beyond
      have le : g.size ≤ i := UInt64.not_lt.1 beyond
      rw [List.getElem?_append_right (length ▸ UInt64.le_iff_toNat_le.1 le), ih,
        UInt64.toNat_sub_of_le _ _ le, length]
      rfl

/-- There are no more addresses than the space has. -/
theorem length_addresses_le {gaps : List AddressRange} (ascending : (addresses gaps).Pairwise (· < ·)) :
    (addresses gaps).length ≤ UInt32.size := by
  have distinct : ((addresses gaps).map UInt32.toNat).Nodup :=
    List.pairwise_map.2 (ascending.imp fun lt => Nat.ne_of_lt (UInt32.lt_iff_toNat_lt.1 lt))
  have inside : (addresses gaps).map UInt32.toNat ⊆ List.range UInt32.size := fun n mem => by
    obtain ⟨a, _, rfl⟩ := List.mem_map.1 mem
    exact List.mem_range.2 a.toNat_lt_size
  simpa using (List.subperm_of_subset distinct inside).length_le

theorem addresses_cons (g : AddressRange) (gaps : List AddressRange) :
    addresses (g :: gaps) = g.addresses ++ addresses gaps := List.flatMap_cons

/-- The count does not wrap. -/
theorem countFree_toNat {gaps : List AddressRange} (ascending : (addresses gaps).Pairwise (· < ·)) :
    (countFree gaps).toNat = (addresses gaps).length := by
  induction gaps with
  | nil => rfl
  | cons g gaps ih =>
    have few := length_addresses_le ascending
    rw [addresses_cons] at ascending few
    have rest := ih (List.pairwise_append.1 ascending).2.1
    rw [List.length_append, AddressRange.length_addresses] at few
    rw [addresses_cons, List.length_append, AddressRange.length_addresses]
    change (g.size + countFree gaps).toNat = _
    rw [UInt64.toNat_add, rest]
    exact Nat.mod_eq_of_lt (Nat.lt_of_le_of_lt few (by decide))

theorem addresses_ascending (bounds : AddressRange) (first : UInt64) (occupied : List AddressRange) :
    (addresses (gaps bounds first occupied)).Pairwise (· < ·) := by
  refine List.pairwise_flatMap.2 ⟨fun g _ => g.addresses_ascending, gaps_apart.imp ?_⟩
  intro g h apart a here b there
  have high := (AddressRange.contains_iff.1 (AddressRange.mem_addresses.1 here)).2
  have low := (AddressRange.contains_iff.1 (AddressRange.mem_addresses.1 there)).1
  rw [UInt32.lt_iff_toNat_lt]
  omega

/-- An address that a pool can hand out, with so much claimed. -/
structure Available (p : Pool) (claimed : List AddressRange) (a : Address) : Prop where
  inside : p.bounds.contains a = true
  first : p.firstCandidate ≤ a.toUInt64
  unclaimed : ∀ c ∈ claimed, c.contains a = false
  unreserved : p.isReserved a = false

theorem mem_addresses_free {p : Pool} {claimed : List AddressRange} {a : Address} :
    a ∈ addresses (freeAddresses p claimed) ↔ Available p claimed a := by
  have held : (∀ c ∈ p.reserved.map AddressRange.single, c.contains a = false) ↔
      p.isReserved a = false := by
    rw [List.forall_mem_map, Pool.isReserved, List.contains_eq_mem, decide_eq_false_iff_not]
    constructor
    · intro apart mem
      have own : (AddressRange.single a).contains a = true :=
        AddressRange.contains_iff.2 ⟨Nat.le_refl _, Nat.le_refl _⟩
      rw [apart a mem] at own
      cases own
    · intro absent b mem
      rw [← Bool.not_eq_true, AddressRange.contains_iff]
      rintro ⟨low, high⟩
      exact absent (UInt32.toNat_inj.1 (Nat.le_antisymm low high) ▸ mem)
  simp only [addresses, List.mem_flatMap, AddressRange.mem_addresses]
  rw [freeAddresses, exists_gap_iff, List.forall_mem_append, held]
  exact ⟨fun ⟨inside, first, unclaimed, unreserved⟩ => ⟨inside, first, unclaimed, unreserved⟩,
    fun ⟨inside, first, unclaimed, unreserved⟩ => ⟨inside, first, unclaimed, unreserved⟩⟩

section

variable {gaps : List AddressRange}

/-- A draw comes to any of the addresses, and to nothing only where there is none. -/
theorem randomFree_yields (ascending : (addresses gaps).Pairwise (· < ·)) {x : Option Address} :
    (randomFree gaps).Yields x ↔
      (∃ a ∈ addresses gaps, x = some a) ∨ addresses gaps = [] ∧ x = none := by
  have count := countFree_toNat ascending
  unfold randomFree
  split
  · rename_i zero
    have empty : addresses gaps = [] := List.eq_nil_of_length_eq_zero (count.symm.trans zero)
    rw [empty]
    constructor
    · exact fun yields => .inr ⟨rfl, Program.yields_pure yields⟩
    · rintro (⟨_, mem, _⟩ | ⟨_, rfl⟩)
      · cases mem
      · exact .pure none
  · rename_i n more
    have drawn (i : Fin (n + 1)) : nthFree gaps (UInt64.ofNat i) = (addresses gaps)[i.val]? := by
      have small : n.succ < UInt64.size := more ▸ (countFree gaps).toNat_lt
      rw [nthFree_eq, UInt64.toNat_ofNat_of_lt' (Nat.lt_trans i.isLt small)]
    constructor
    · intro yields
      obtain ⟨i, result⟩ := Program.yields_ask yields
      have within : i.val < (addresses gaps).length := by omega
      cases Program.yields_pure result
      refine .inl ⟨(addresses gaps)[i.val], List.getElem_mem within, ?_⟩
      rw [drawn, List.getElem?_eq_getElem within]
    · rintro (⟨a, mem, rfl⟩ | ⟨empty, _⟩)
      · obtain ⟨i, within, rfl⟩ := List.mem_iff_getElem.1 mem
        have bound : i < n + 1 := by omega
        refine .ask (⟨i, bound⟩ : Fin (n + 1)) ?_
        rw [Program.bind, drawn, List.getElem?_eq_getElem within]
        exact .pure _
      · rw [empty] at count
        cases more.symm.trans count

end

/-- Picking an address is such a draw, refused when nothing is free. -/
theorem pickFree_eq (p : Pool) (pins : List Pin) : PinAllocator.pickFree p pins =
    (randomFree (freeAddresses p (pins.map fun pin => .single pin.claim.address))).bind fun
      | none => .pure (.error (.capacityExhausted p.name 1))
      | some a => .pure (.ok a) := by
  change Program.bind (Program.bind (randomFree _) _) _ = _
  rw [Program.bind_assoc]
  rfl

theorem pickFree_yields {p : Pool} {pins : List Pin} {x : Except Failure Address} :
    (PinAllocator.pickFree p pins).outcome.Yields x ↔
      (∃ a, Available p (pins.map fun pin => .single pin.claim.address) a ∧ x = .ok a) ∨
      (∀ a, ¬ Available p (pins.map fun pin => .single pin.claim.address) a) ∧
        x = .error (.capacityExhausted p.name 1) := by
  have draws {y : Option Address} := randomFree_yields (x := y) (addresses_ascending p.bounds p.firstCandidate
    ((pins.map fun pin => .single pin.claim.address) ++ p.reserved.map .single))
  change Program.Yields (PinAllocator.pickFree p pins) x ↔ _
  rw [pickFree_eq]
  constructor
  · intro yields
    obtain ⟨y, draw, rest⟩ := Program.yields_bind yields
    rcases draws.1 draw with ⟨a, free, rfl⟩ | ⟨full, rfl⟩
    · exact .inl ⟨a, mem_addresses_free.1 free, Program.yields_pure rest⟩
    · refine .inr ⟨fun a free => ?_, Program.yields_pure rest⟩
      exact List.eq_nil_iff_forall_not_mem.1 full a (mem_addresses_free.2 free)
  · rintro (⟨a, free, rfl⟩ | ⟨full, rfl⟩)
    · exact (draws.2 (.inl ⟨a, mem_addresses_free.2 free, rfl⟩)).bind (.pure _)
    · have empty := List.eq_nil_iff_forall_not_mem.2 fun a mem => full a (mem_addresses_free.1 mem)
      exact (draws.2 (.inr ⟨empty, rfl⟩)).bind (.pure _)

/-- Among others too, an address that is picked is free beside the pins. -/
theorem pickFree_safe {σ : Type} {T : Terms σ} {idle : σ → Prop} (stays : T.Stable idle)
    (picks : ∀ {s t n x}, T.valid s → idle s → T.answers s (.pick n) x t →
      T.valid t ∧ T.guarantee s (.pick n) t ∧ idle t) {p : Pool} {pins : List Pin} {s : σ}
    (valid : T.valid s) (start : idle s) :
    Safe T (Safe.Outcome (fun a t => Available p (pins.map fun pin => .single pin.claim.address) a ∧ idle t)
      idle) (PinAllocator.pickFree p pins) s := by
  have drawn : Safe T (fun x t => (∀ a ∈ x, Available p (pins.map fun pin => .single pin.claim.address) a) ∧
      idle t) (randomFree (freeAddresses p (pins.map fun pin => .single pin.claim.address))) s := by
    unfold randomFree
    split
    · exact fun t rely _ => ⟨nofun, stays rely start⟩
    · intro t rely valid i u answer
      obtain ⟨valid, does, idle⟩ := picks valid (stays rely start) answer
      refine ⟨valid, does, fun v rely _ => ⟨fun a found => ?_, stays rely idle⟩⟩
      rw [nthFree_eq] at found
      exact mem_addresses_free.1 (List.mem_of_getElem? found)
  rw [pickFree_eq]
  apply Safe.bind drawn valid
  intro x t _ reached
  cases x with
  | none => exact fun u rely _ => stays rely reached.2
  | some a => exact fun u rely _ => ⟨reached.1 a rfl, stays rely reached.2⟩

/-- The free addresses of a pool in their order: as many as are counted, each found under its index, and
nothing past them. A draw comes to each of them and to no other address, and to none only where none is
free; so a pin is given any address that is free beside the other pins, and refused only where none is. -/
theorem free_addresses_enumerated (p : Pool) (claimed : List AddressRange) :
    (∃ free : List Address, free.Pairwise (· < ·) ∧
      (∀ a, a ∈ free ↔ Available p claimed a) ∧
      (countFree (freeAddresses p claimed)).toNat = free.length ∧
      ∀ i, nthFree (freeAddresses p claimed) i = free[i.toNat]?) ∧
    (∀ a, (randomFree (freeAddresses p claimed)).Yields (some a) ↔ Available p claimed a) ∧
    ((randomFree (freeAddresses p claimed)).Yields none ↔ ∀ a, ¬ Available p claimed a) ∧
    ∀ (pins : List Pin) (x : Except Failure Address), (PinAllocator.pickFree p pins).outcome.Yields x ↔
      (∃ a, Available p (pins.map fun pin => .single pin.claim.address) a ∧ x = .ok a) ∨
      (∀ a, ¬ Available p (pins.map fun pin => .single pin.claim.address) a) ∧
        x = .error (.capacityExhausted p.name 1) := by
  have ascending : (addresses (freeAddresses p claimed)).Pairwise (· < ·) := addresses_ascending _ _ _
  refine ⟨⟨addresses (freeAddresses p claimed), ascending, fun _ => mem_addresses_free,
    countFree_toNat ascending, nthFree_eq _⟩, fun a => ?_, ?_, fun _ _ => pickFree_yields⟩
  · rw [randomFree_yields ascending, ← mem_addresses_free]
    simp
  · rw [randomFree_yields ascending, List.eq_nil_iff_forall_not_mem]
    simp [← mem_addresses_free]

end Search

end NetPool
