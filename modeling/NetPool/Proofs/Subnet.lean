import Mathlib.Algebra.Group.Nat.Defs
import Mathlib.Data.List.Basic
import NetPool.Proofs.Search

/-! Subnets as intervals of numbers, and the subnets that a search comes up with. -/

namespace NetPool

/-- A mask clears the low bits. -/
theorem and_shifted {x m k : Nat} (small : x < 2 ^ (m + k)) :
    x &&& ((2 ^ m - 1) <<< k) = x / 2 ^ k * 2 ^ k := by
  apply Nat.eq_of_testBit_eq
  intro i
  rw [← Nat.shiftLeft_eq, ← Nat.shiftRight_eq_div_pow, Nat.testBit_and, Nat.testBit_shiftLeft,
    Nat.testBit_shiftLeft, Nat.testBit_two_pow_sub_one, Nat.testBit_shiftRight]
  by_cases low : k ≤ i
  · have index : k + (i - k) = i := by omega
    by_cases high : i < m + k
    · simp [low, index, show i - k < m by omega]
    · have zero : x.testBit i = false :=
        Nat.testBit_lt_two_pow (Nat.lt_of_lt_of_le small (Nat.pow_le_pow_right (by decide) (by omega)))
      simp [low, index, zero]
  · simp [low]

theorem mask_toNat : ∀ n ≤ 32, (mask n).toNat = (2 ^ n - 1) <<< (32 - n) := by decide +kernel

theorem not_mask_toNat : ∀ n ≤ 32, (~~~mask n).toNat = 2 ^ (32 - n) - 1 := by decide +kernel

theorem maskSize_toNat : ∀ n ≤ 32, (maskSize n).toNat = 2 ^ (32 - n) := by decide +kernel

theorem not_maskSize_toNat : ∀ n ≤ 32, (~~~(maskSize n - 1)).toNat = (2 ^ (32 + n) - 1) <<< (32 - n) := by
  decide +kernel

theorem and_mask_toNat (a : Address) {n : Nat} (le : n ≤ 32) :
    (a &&& mask n).toNat = a.toNat / 2 ^ (32 - n) * 2 ^ (32 - n) := by
  have whole : n + (32 - n) = 32 := by omega
  rw [UInt32.toNat_and, mask_toNat n le]
  exact and_shifted (by rw [whole]; exact a.toNat_lt)

/-- There is room past the space for one subnet more. -/
theorem add_maskSize_toNat {v : UInt64} {n : Nat} (le : n ≤ 32) (small : v.toNat < 2 ^ 63) :
    (v + maskSize n).toNat = v.toNat + 2 ^ (32 - n) ∧
      (v + maskSize n - 1).toNat = v.toNat + (2 ^ (32 - n) - 1) := by
  have power : 2 ^ (32 - n) ≤ 2 ^ 32 := Nat.pow_le_pow_right (by decide) (by omega)
  have pos : 0 < 2 ^ (32 - n) := Nat.two_pow_pos _
  have sum : (v + maskSize n).toNat = v.toNat + 2 ^ (32 - n) := by
    rw [UInt64.toNat_add, maskSize_toNat n le]
    omega
  constructor
  · exact sum
  · rw [toNat_sub_one (by omega), sum]
    omega

/-- Alignment goes up to the next multiple. -/
theorem alignUp_toNat {v : UInt64} {n : Nat} (le : n ≤ 32) (small : v.toNat < 2 ^ 63) :
    (alignUp v (maskSize n)).toNat =
      (v.toNat + (2 ^ (32 - n) - 1)) / 2 ^ (32 - n) * 2 ^ (32 - n) := by
  have size := maskSize_toNat n le
  have power : 2 ^ (32 - n) ≤ 2 ^ 32 := Nat.pow_le_pow_right (by decide) (by omega)
  have pos : 0 < 2 ^ (32 - n) := Nat.two_pow_pos _
  have one : (1 : UInt64).toNat = 1 := rfl
  unfold alignUp
  split
  · rename_i single
    rw [UInt64.le_iff_toNat_le, size, one] at single
    have unit : 2 ^ (32 - n) = 1 := by omega
    rw [unit]
    omega
  · have whole : 32 + n + (32 - n) = 64 := by omega
    rw [UInt64.toNat_and, (add_maskSize_toNat le small).2, not_maskSize_toNat n le]
    exact and_shifted (by rw [whole]; omega)

namespace Subnet

theorem dvd_network (s : Subnet) : 2 ^ (32 - s.length) ∣ s.network.toNat := by
  have aligned := and_mask_toNat s.network s.length_le
  rw [s.canonical] at aligned
  exact ⟨_, aligned.trans (Nat.mul_comm _ _)⟩

theorem last_toNat (s : Subnet) : s.last.toNat = s.network.toNat + (2 ^ (32 - s.length) - 1) := by
  obtain ⟨q, network⟩ := s.dvd_network
  have pos : 0 < 2 ^ (32 - s.length) := Nat.two_pow_pos _
  rw [last, UInt32.toNat_or, not_mask_toNat s.length s.length_le, network,
    Nat.two_pow_add_eq_or_of_lt (by omega)]

end Subnet

namespace Search

/-! The subnets of one length side by side in a gap. -/

section

variable {length start stop : Nat} {h : length ≤ 32}

/-- The first address from which on a subnet of the length can start. -/
theorem alignUp_least (h : length ≤ 32) (a : Address) :
    2 ^ (32 - length) ∣ (alignUp a.toUInt64 (maskSize length)).toNat ∧
      ∀ m, 2 ^ (32 - length) ∣ m →
        ((alignUp a.toUInt64 (maskSize length)).toNat ≤ m ↔ a.toNat ≤ m) := by
  have small := a.toNat_lt
  have pos : 0 < 2 ^ (32 - length) := Nat.two_pow_pos _
  have up := alignUp_toNat (v := a.toUInt64) h (by rw [UInt32.toNat_toUInt64]; omega)
  rw [UInt32.toNat_toUInt64] at up
  refine ⟨up ▸ Nat.dvd_mul_left _ _, ?_⟩
  rintro _ ⟨q, rfl⟩
  rw [up, Nat.mul_comm, Nat.mul_le_mul_left_iff pos, ← Nat.lt_succ_iff, Nat.div_lt_iff_lt_mul pos,
    Nat.succ_mul, Nat.mul_comm q]
  omega

theorem alignUp_le (h : length ≤ 32) (a : Address) :
    (alignUp a.toUInt64 (maskSize length)).toNat ≤ 2 ^ 32 := by
  have small := a.toNat_lt
  exact ((alignUp_least h a).2 (2 ^ 32) (Nat.pow_dvd_pow 2 (Nat.sub_le 32 _))).2 (by omega)

/-- The subnets of a length side by side from `start` on, as many as end by `stop`. -/
def row (length : Nat) (h : length ≤ 32) (stop start : Nat) : List Subnet :=
  (List.range ((stop + 1 - start) / 2 ^ (32 - length))).map fun i =>
    Subnet.around (UInt32.ofNat (start + 2 ^ (32 - length) * i)) length h

theorem row_full (full : stop + 1 < start + 2 ^ (32 - length)) : row length h stop start = [] := by
  have pos : 0 < 2 ^ (32 - length) := Nat.two_pow_pos _
  rw [row, Nat.div_eq_of_lt (by omega)]
  rfl

theorem row_cons (fits : start + 2 ^ (32 - length) ≤ stop + 1) : row length h stop start =
    Subnet.around (UInt32.ofNat start) length h :: row length h stop (start + 2 ^ (32 - length)) := by
  have pos : 0 < 2 ^ (32 - length) := Nat.two_pow_pos _
  rw [row, Nat.div_eq_sub_div pos (by omega), List.range_succ_eq_map, List.map_cons, List.map_map, row,
    Nat.sub_sub]
  congr 1
  apply List.map_congr_left
  intro i _
  rw [Function.comp_apply, Nat.mul_succ, Nat.add_comm _ (2 ^ (32 - length)), Nat.add_assoc]

theorem stride_eq {stop start : UInt64} (small : stop.toNat < 2 ^ 32) (room : start.toNat < 2 ^ 63)
    (limit : Nat) :
    stride length h stop limit start = (row length h stop.toNat start.toNat).take limit := by
  have pos : 0 < 2 ^ (32 - length) := Nat.two_pow_pos _
  induction limit generalizing start with
  | zero => rfl
  | succ limit ih =>
    obtain ⟨next, final⟩ := add_maskSize_toNat h room
    have fits : start + maskSize length - 1 ≤ stop ↔
        start.toNat + 2 ^ (32 - length) ≤ stop.toNat + 1 := by
      rw [UInt64.le_iff_toNat_le, final]
      omega
    unfold stride
    split
    · rename_i within
      have within := fits.1 within
      rw [row_cons within, List.take_succ_cons, ih (by omega), next]
      rfl
    · rename_i beyond
      rw [row_full (Nat.lt_of_not_le (mt fits.2 beyond))]
      rfl

theorem row_network (small : stop < 2 ^ 32) (aligned : 2 ^ (32 - length) ∣ start) {i : Nat}
    (lt : i < (stop + 1 - start) / 2 ^ (32 - length)) :
    (Subnet.around (UInt32.ofNat (start + 2 ^ (32 - length) * i)) length h).network.toNat =
        start + 2 ^ (32 - length) * i ∧
      start + 2 ^ (32 - length) * i + 2 ^ (32 - length) ≤ stop + 1 := by
  have pos : 0 < 2 ^ (32 - length) := Nat.two_pow_pos _
  have fits : (i + 1) * 2 ^ (32 - length) ≤ stop + 1 - start := (Nat.le_div_iff_mul_le pos).1 lt
  rw [Nat.mul_comm, Nat.mul_succ] at fits
  have word : UInt32.size = 2 ^ 32 := rfl
  have place : (UInt32.ofNat (start + 2 ^ (32 - length) * i)).toNat = start + 2 ^ (32 - length) * i :=
    UInt32.toNat_ofNat_of_lt' (by omega)
  refine ⟨?_, by omega⟩
  change (UInt32.ofNat _ &&& mask length).toNat = _
  rw [and_mask_toNat _ h, place, Nat.div_mul_cancel (Nat.dvd_add aligned (Nat.dvd_mul_right _ _))]

/-- A row holds the subnets of its length that lie between its ends. -/
theorem mem_row (small : stop < 2 ^ 32) (aligned : 2 ^ (32 - length) ∣ start) {s : Subnet} :
    s ∈ row length h stop start ↔
      s.length = length ∧ start ≤ s.network.toNat ∧ s.last.toNat ≤ stop := by
  have pos : 0 < 2 ^ (32 - length) := Nat.two_pow_pos _
  have last := s.last_toNat
  rw [row, List.mem_map]
  constructor
  · rintro ⟨i, mem, rfl⟩
    obtain ⟨network, fits⟩ := row_network small aligned (List.mem_range.1 mem) (h := h)
    rw [network] at last ⊢
    change _ = start + 2 ^ (32 - length) * i + (2 ^ (32 - length) - 1) at last
    exact ⟨rfl, by omega, by omega⟩
  · rintro ⟨rfl, low, high⟩
    obtain ⟨i, place⟩ := Nat.dvd_sub s.dvd_network aligned
    have lt : i < (stop + 1 - start) / 2 ^ (32 - s.length) := by
      refine (Nat.le_div_iff_mul_le pos).2 ?_
      rw [Nat.mul_comm, Nat.mul_succ]
      omega
    obtain ⟨network, _⟩ := row_network small aligned lt (h := h)
    refine ⟨i, List.mem_range.2 lt, Subnet.ext (UInt32.toNat_inj.1 ?_) rfl⟩
    rw [network]
    omega

theorem row_ascending (small : stop < 2 ^ 32) (aligned : 2 ^ (32 - length) ∣ start) :
    (row length h stop start).Pairwise (·.network < ·.network) := by
  refine List.pairwise_map.2 (List.pairwise_lt_range.imp_of_mem fun {i j} here there lt => ?_)
  have first := (row_network small aligned (List.mem_range.1 here) (h := h)).1
  have second := (row_network small aligned (List.mem_range.1 there) (h := h)).1
  rw [UInt32.lt_iff_toNat_lt, first, second]
  exact Nat.add_lt_add_left (Nat.mul_lt_mul_of_pos_left lt (Nat.two_pow_pos _)) start

end

section

variable {bounds : AddressRange} {first : UInt64} {length : Nat} {live : List Subnet}

/-- A subnet to lease: of the length, in bounds, not before `first`, and clear of the live ones. -/
structure Opening (bounds : AddressRange) (first : UInt64) (length : Nat) (live : List Subnet)
    (s : Subnet) : Prop where
  length : s.length = length
  inside : bounds.containsRange s.range = true
  behind : first ≤ s.network.toUInt64
  clear : ∀ t ∈ live, s.overlaps t = false

theorem opening_iff {s : Subnet} : Opening bounds first length live s ↔
    s.length = length ∧ Vacant bounds first (live.map (·.range)) s.range := by
  constructor
  · rintro ⟨same, inside, behind, clear⟩
    exact ⟨same, inside, behind, List.forall_mem_map.2 clear⟩
  · rintro ⟨same, inside, behind, clear⟩
    exact ⟨same, inside, behind, List.forall_mem_map.1 clear⟩

/-- The openings in their order. -/
def openings (bounds : AddressRange) (first : UInt64) (length : Nat) (live : List Subnet) :
    List Subnet :=
  if h : length ≤ 32 then
    (gaps bounds first (live.map (·.range))).flatMap fun gap =>
      row length h gap.stop.toNat (alignUp gap.start.toUInt64 (maskSize length)).toNat
  else []

theorem mem_openings {s : Subnet} :
    s ∈ openings bounds first length live ↔ Opening bounds first length live s := by
  rw [opening_iff, openings]
  split
  · rename_i h
    have in_row (gap : AddressRange) :
        s ∈ row length h gap.stop.toNat (alignUp gap.start.toUInt64 (maskSize length)).toNat ↔
          s.length = length ∧ gap.start.toNat ≤ s.network.toNat ∧ s.last.toNat ≤ gap.stop.toNat := by
      obtain ⟨aligned, least⟩ := alignUp_least h gap.start
      rw [mem_row gap.stop.toNat_lt aligned]
      refine and_congr_right fun same => and_congr_left fun _ => least _ ?_
      exact same ▸ s.dvd_network
    simp only [List.mem_flatMap, in_row]
    constructor
    · rintro ⟨gap, free, same, low, high⟩
      exact ⟨same, vacant_iff_clear.2 ((gaps_clear gap free).within low high)⟩
    · rintro ⟨same, vacant⟩
      obtain ⟨gap, free, low, high⟩ := gaps_covers (vacant_iff_clear.1 vacant)
      exact ⟨gap, free, same, low, high⟩
  · rename_i long
    exact ⟨nofun, fun opening => absurd (opening.1 ▸ s.length_le) long⟩

theorem openings_ascending : (openings bounds first length live).Pairwise (·.network < ·.network) := by
  unfold openings
  split
  · rename_i h
    refine List.pairwise_flatMap.2 ⟨fun gap _ => ?_, gaps_apart.imp fun {g k} apart s here t there => ?_⟩
    · exact row_ascending gap.stop.toNat_lt (alignUp_least h gap.start).1
    · obtain ⟨_, _, high⟩ := (mem_row g.stop.toNat_lt (alignUp_least h g.start).1).1 here
      obtain ⟨_, low, _⟩ := (mem_row k.stop.toNat_lt (alignUp_least h k.start).1).1 there
      have up := ((alignUp_least h k.start).2 _ (alignUp_least h k.start).1).1 (Nat.le_refl _)
      have ordered := UInt32.le_iff_toNat_le.1 s.network_le_last
      rw [UInt32.lt_iff_toNat_lt]
      omega
  · exact .nil

/-- Of lists that follow one another the first elements are the same if each list is cut at their number. -/
theorem take_flatMap_take {α β : Type} (f : α → List β) {m n : Nat} (le : m ≤ n) (l : List α) :
    (l.flatMap fun a => (f a).take n).take m = (l.flatMap f).take m := by
  induction l generalizing m with
  | nil => rfl
  | cons a l ih =>
    rw [List.flatMap_cons, List.flatMap_cons, List.take_append, List.take_append, List.take_take,
      Nat.min_eq_left le, List.length_take, ih (Nat.le_trans (Nat.sub_le _ _) le)]
    by_cases short : (f a).length ≤ n
    · rw [Nat.min_eq_right short]
    · rw [Nat.sub_eq_zero_of_le (by omega), Nat.sub_eq_zero_of_le (by omega)]

theorem subnetCandidates_eq (limit : Nat) : subnetCandidates bounds first length live limit =
    (openings bounds first length live).take limit := by
  unfold subnetCandidates openings
  split
  · rename_i h
    refine Eq.trans (congrArg _ (List.flatMap_congr fun gap _ => ?_))
      (take_flatMap_take _ (Nat.le_refl limit) _)
    have stop := gap.stop.toNat_lt
    have within := alignUp_le h gap.start
    rw [stride_eq (by rwa [UInt32.toNat_toUInt64]) (by omega), UInt32.toNat_toUInt64]
  · exact List.take_nil.symm

/-- Whatever the limit, the candidates are the first of all openings in their order. A length above that of
an address has none. -/
theorem subnetCandidates_first_openings (bounds : AddressRange) (first : UInt64) (length : Nat)
    (live : List Subnet) :
    ∃ all : List Subnet, all.Pairwise (·.network < ·.network) ∧
      (∀ s, s ∈ all ↔ Opening bounds first length live s) ∧
      ∀ limit, subnetCandidates bounds first length live limit = all.take limit :=
  ⟨openings bounds first length live, openings_ascending, fun _ => mem_openings, subnetCandidates_eq⟩

/-- The subnets found have the length asked for, lie in bounds and overlap nothing that is live. -/
theorem subnetCandidates_sound {limit : Nat} {s : Subnet}
    (mem : s ∈ subnetCandidates bounds first length live limit) :
    s.length = length ∧ Clear bounds.stop.toUInt64 (max first bounds.start.toUInt64)
      (live.map (·.range)) s.range := by
  rw [subnetCandidates_eq] at mem
  obtain ⟨same, vacant⟩ := opening_iff.1 (mem_openings.1 (List.mem_of_mem_take mem))
  exact ⟨same, vacant_iff_clear.1 vacant⟩

end

end Search

theorem Pool.isCompatible_of_mem {p : Pool} {live : List Subnet} {limit : Nat} {s : Subnet}
    (mem : s ∈ Search.subnetCandidates p.bounds p.firstCandidate p.subnetLen live limit) :
    p.isCompatible s = true := by
  rw [Search.subnetCandidates_eq] at mem
  have opening := Search.mem_openings.1 (List.mem_of_mem_take mem)
  rw [isCompatible, Bool.and_eq_true, beq_iff_eq]
  exact ⟨opening.length, opening.inside⟩

end NetPool
