import NetPool.Proofs.Subnet

/-! Subnets as sets of addresses. What a mask keeps of an address and the range between two ends tell the
same addresses, and of two subnets that meet one lies inside the other. -/

namespace NetPool

namespace Subnet

variable {s t : Subnet} {a : Address}

theorem size_toNat (s : Subnet) : s.size.toNat = 2 ^ (32 - s.length) :=
  maskSize_toNat s.length s.length_le

theorem last_eq (s : Subnet) : s.last.toNat + 1 = s.network.toNat + 2 ^ (32 - s.length) := by
  have last := s.last_toNat
  have pos : 0 < 2 ^ (32 - s.length) := Nat.two_pow_pos _
  omega

theorem range_size (s : Subnet) : s.range.size = s.size := by
  apply UInt64.toNat_inj.1
  have last := s.last_eq
  have size : s.range.size.toNat = s.last.toNat - s.network.toNat + 1 := s.range.size_toNat
  have ordered := UInt32.le_iff_toNat_le.1 s.network_le_last
  rw [size, size_toNat]
  omega

theorem contains_iff :
    s.contains a = true ↔ s.network.toNat ≤ a.toNat ∧ a.toNat ≤ s.last.toNat := by
  obtain ⟨q, network⟩ := s.dvd_network
  have last := s.last_eq
  have pos : 0 < 2 ^ (32 - s.length) := Nat.two_pow_pos _
  have block : a.toNat / 2 ^ (32 - s.length) * 2 ^ (32 - s.length) = 2 ^ (32 - s.length) * q ↔
      a.toNat / 2 ^ (32 - s.length) = q := by
    rw [Nat.mul_comm, Nat.mul_right_inj (by omega)]
  rw [contains, beq_iff_eq, ← UInt32.toNat_inj, and_mask_toNat a s.length_le, network, block,
    Nat.div_eq_iff pos, Nat.mul_comm q]
  omega

theorem contains_eq (s : Subnet) (a : Address) : s.contains a = s.range.contains a := by
  rw [Bool.eq_iff_iff, contains_iff, AddressRange.contains_iff]
  rfl

/-- A subnet is the one made around each address that it contains. -/
theorem contains_iff_make : s.contains a = true ↔ make a s.length = .ok s := by
  rw [contains, beq_iff_eq, make, dif_pos s.length_le]
  constructor
  · intro within
    exact congrArg Except.ok (ext within rfl)
  · intro made
    exact congrArg network (Except.ok.inj made)

/-- Multiples of a number are that number apart. -/
theorem add_le_of_dvd {d m n : Nat} (one : d ∣ m) (other : d ∣ n) (lt : m < n) : m + d ≤ n :=
  Nat.le_of_lt_add_of_dvd (Nat.add_lt_add_right lt d) (Nat.dvd_add one (Nat.dvd_refl d)) other

/-- A subnet that meets one of at most its length lies inside that one. -/
theorem inside_of_meet (le : s.length ≤ t.length) (low : s.network.toNat ≤ t.last.toNat)
    (high : t.network.toNat ≤ s.last.toNat) :
    s.network.toNat ≤ t.network.toNat ∧ t.last.toNat ≤ s.last.toNat := by
  have parts : 2 ^ (32 - t.length) ∣ 2 ^ (32 - s.length) := Nat.pow_dvd_pow 2 (by omega)
  have whole := Nat.dvd_trans parts s.dvd_network
  have ends : 2 ^ (32 - t.length) ∣ s.network.toNat + 2 ^ (32 - s.length) := Nat.dvd_add whole parts
  have outer := s.last_eq
  have inner := t.last_eq
  constructor
  · exact Nat.le_of_lt_add_of_dvd (by omega) whole t.dvd_network
  · have fits := add_le_of_dvd t.dvd_network ends (by omega)
    omega

theorem containsSubnet_iff : s.containsSubnet t = true ↔
    s.network.toNat ≤ t.network.toNat ∧ t.last.toNat ≤ s.last.toNat := by
  have ordered := UInt32.le_iff_toNat_le.1 t.network_le_last
  rw [containsSubnet, Bool.and_eq_true, decide_eq_true_eq, contains_iff]
  constructor
  · rintro ⟨le, low, high⟩
    exact inside_of_meet le (by omega) high
  · rintro ⟨low, high⟩
    have outer := s.last_eq
    have inner := t.last_eq
    have smaller : 2 ^ (32 - t.length) ≤ 2 ^ (32 - s.length) := by omega
    have lengths := (Nat.pow_le_pow_iff_right (by decide)).1 smaller
    have le := s.length_le
    have le' := t.length_le
    exact ⟨by omega, low, by omega⟩

theorem containsSubnet_eq (s t : Subnet) : s.containsSubnet t = s.range.containsRange t.range := by
  rw [Bool.eq_iff_iff, containsSubnet_iff, AddressRange.containsRange_iff]
  rfl

theorem overlaps_iff : s.overlaps t = true ↔
    s.network.toNat ≤ t.last.toNat ∧ t.network.toNat ≤ s.last.toNat :=
  AddressRange.overlaps_iff

theorem overlaps_eq (s t : Subnet) :
    s.overlaps t = (s.containsSubnet t || t.containsSubnet s) := by
  have ordered := UInt32.le_iff_toNat_le.1 s.network_le_last
  have ordered' := UInt32.le_iff_toNat_le.1 t.network_le_last
  rw [Bool.eq_iff_iff, Bool.or_eq_true, overlaps_iff, containsSubnet_iff, containsSubnet_iff]
  constructor
  · rintro ⟨low, high⟩
    rcases Nat.le_total s.length t.length with le | le
    · exact .inl (inside_of_meet le low high)
    · exact .inr (inside_of_meet le high low)
  · omega

/-- Two subnets of one length are the same or disjoint. -/
theorem disjoint_of_length (length : s.length = t.length) (ne : s ≠ t) : s.overlaps t = false := by
  rw [← Bool.not_eq_true, overlaps_iff]
  rintro ⟨low, high⟩
  have inside := inside_of_meet (Nat.le_of_eq length) low high
  have inside' := inside_of_meet (Nat.le_of_eq length.symm) high low
  apply ne
  apply ext (UInt32.toNat_inj.1 _) length
  omega

theorem offset?_size {b : Address} :
    offset? s.network s.size = some b ↔ b.toNat = s.last.toNat + 1 := by
  rw [offset?_eq_some, size_toNat, last_eq]

/-- Nothing is left to mask in the address right after a subnet. -/
theorem mask_next {b : Address} (next : b.toNat = s.last.toNat + 1) : b &&& mask s.length = b := by
  apply UInt32.toNat_inj.1
  have aligned : 2 ^ (32 - s.length) ∣ b.toNat := by
    rw [next, last_eq]
    exact Nat.dvd_add s.dvd_network (Nat.dvd_refl _)
  rw [and_mask_toNat b s.length_le, Nat.div_mul_cancel aligned]

theorem network_next (s : Subnet) : s.next.map (·.network) = offset? s.network s.size := by
  have unmasked : ∀ b ∈ offset? s.network s.size, (around b s.length s.length_le).network = id b :=
    fun b follows => mask_next (offset?_size.1 follows)
  rw [next, Option.map_map]
  exact (Option.map_congr unmasked).trans (Option.map_id_apply)

theorem next_eq_some :
    s.next = some t ↔ t.length = s.length ∧ t.network.toNat = s.last.toNat + 1 := by
  constructor
  · intro follows
    have network : offset? s.network s.size = some t.network := by
      rw [← network_next, follows]
      rfl
    obtain ⟨b, _, rfl⟩ := Option.map_eq_some_iff.1 follows
    exact ⟨rfl, offset?_size.1 network⟩
  · rintro ⟨length, follows⟩
    rw [next, offset?_size.2 follows]
    refine congrArg some (ext (mask_next follows) length.symm)

theorem next_eq_none : s.next = none ↔ s.last = 0xFFFFFFFF := by
  have small := s.last.toNat_lt
  have space : UInt32.size = 4294967296 := rfl
  have top : (0xFFFFFFFF : Address).toNat = 4294967295 := rfl
  rw [next, Option.map_eq_none_iff, offset?_eq_none, size_toNat, ← last_eq, ← UInt32.toNat_inj]
  omega

/-- The mask and the ends of a subnet tell the same addresses: as many as its size, from a multiple of its
size on. Two subnets that meet lie one inside the other. After a subnet, unless it ends the space, follows
one of its length. -/
theorem subnets_nest (s t : Subnet) :
    s.range.size = s.size ∧ s.size.toNat ∣ s.range.start.toNat ∧
    (∀ a, s.contains a = s.range.contains a) ∧
    (∀ a, s.contains a = true ↔ make a s.length = .ok s) ∧
    s.containsSubnet t = s.range.containsRange t.range ∧
    s.overlaps t = (s.containsSubnet t || t.containsSubnet s) ∧
    s.next.map (·.network) = offset? s.network s.size ∧
    (s.next = none ↔ s.last = 0xFFFFFFFF) ∧
    (s.next = some t ↔ t.length = s.length ∧ t.network.toNat = s.last.toNat + 1) := by
  refine ⟨s.range_size, ?_, s.contains_eq, fun _ => contains_iff_make, s.containsSubnet_eq t,
    s.overlaps_eq t, s.network_next, next_eq_none, next_eq_some⟩
  rw [size_toNat]
  exact s.dvd_network

end Subnet

end NetPool
