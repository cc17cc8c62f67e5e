import NetPool.Proofs.Search

/-! Gaps as a normal form. Ranges in ascending order with an address between each two of them are told
by the addresses that they hold, so the gaps of a search are the only such list of the free addresses. -/

namespace NetPool.Search

/-- Some range holds the address of this number. -/
def Held (ranges : List AddressRange) (n : Nat) : Prop :=
  ∃ r ∈ ranges, r.start.toNat ≤ n ∧ n ≤ r.stop.toNat

/-- Ranges in ascending order, with an address at least between each two of them. -/
def Spaced (ranges : List AddressRange) : Prop :=
  ranges.Pairwise fun r s => r.stop.toNat + 1 < s.start.toNat

section

variable {ranges others : List AddressRange} {r s : AddressRange} {n : Nat}

theorem held_cons :
    Held (r :: ranges) n ↔ (r.start.toNat ≤ n ∧ n ≤ r.stop.toNat) ∨ Held ranges n := by
  simp [Held]

theorem held_start : Held (r :: ranges) r.start.toNat :=
  held_cons.2 (.inl ⟨Nat.le_refl _, r.start_le⟩)

theorem held_iff_contains {a : Address} :
    Held ranges a.toNat ↔ ∃ r ∈ ranges, r.contains a = true := by
  simp [Held, AddressRange.contains_iff]

theorem held_lt (held : Held ranges n) : n < UInt32.size := by
  obtain ⟨r, _, _, high⟩ := held
  exact Nat.lt_of_le_of_lt high r.stop.toNat_lt

/-- What is held behind the first range does not touch it. -/
theorem held_behind (spaced : Spaced (r :: ranges)) (held : Held ranges n) :
    r.stop.toNat + 1 < n := by
  obtain ⟨s, mem, low, _⟩ := held
  have apart := (List.pairwise_cons.1 spaced).1 s mem
  omega

theorem start_le_of_held (spaced : Spaced (r :: ranges)) (held : Held (r :: ranges) n) :
    r.start.toNat ≤ n := by
  have ordered := r.start_le
  rcases held_cons.1 held with here | behind
  · exact here.1
  · have apart := held_behind spaced behind
    omega

/-- Past the first range nothing is held, so no range that begins in it goes on further. -/
theorem stop_le_of_held (spaced : Spaced (r :: ranges)) (within : s.start.toNat ≤ r.stop.toNat)
    (held : ∀ n, Held (s :: others) n → Held (r :: ranges) n) : s.stop.toNat ≤ r.stop.toNat := by
  apply Nat.not_lt.1
  intro longer
  have next : Held (r :: ranges) (r.stop.toNat + 1) := by
    apply held
    exact held_cons.2 (.inl ⟨by omega, longer⟩)
  rcases held_cons.1 next with here | behind
  · omega
  · have apart := held_behind spaced behind
    omega

theorem first_eq (spaced : Spaced (r :: ranges)) (spaced' : Spaced (s :: others))
    (same : ∀ n, Held (r :: ranges) n ↔ Held (s :: others) n) : r = s := by
  have ordered := r.start_le
  have ordered' := s.start_le
  have low := start_le_of_held spaced ((same _).2 held_start)
  have low' := start_le_of_held spaced' ((same _).1 held_start)
  have start : r.start.toNat = s.start.toNat := by omega
  have high := stop_le_of_held spaced (by omega) fun n => (same n).2
  have high' := stop_le_of_held spaced' (by omega) fun n => (same n).1
  apply AddressRange.eq_of_start_size
  · exact UInt32.toNat_inj.1 start
  · rw [AddressRange.size_toNat, AddressRange.size_toNat]
    omega

theorem eq_of_held (spaced : Spaced ranges) (spaced' : Spaced others)
    (same : ∀ n, Held ranges n ↔ Held others n) : ranges = others := by
  induction ranges generalizing others with
  | nil =>
    cases others with
    | nil => rfl
    | cons s others =>
      have none := (same _).2 held_start
      simp [Held] at none
  | cons r ranges ih =>
    cases others with
    | nil =>
      have none := (same _).1 held_start
      simp [Held] at none
    | cons s others =>
      obtain rfl := first_eq spaced spaced' same
      -- Of what both lists hold, that behind the first range is what their rests hold.
      have rest : ∀ n, Held ranges n ↔ Held others n := by
        intro n
        have all := same n
        rw [held_cons, held_cons] at all
        constructor
        · intro held
          have apart := held_behind spaced held
          rcases all.1 (.inr held) with here | behind
          · omega
          · exact behind
        · intro held
          have apart := held_behind spaced' held
          rcases all.2 (.inr held) with here | behind
          · omega
          · exact behind
      rw [ih (List.pairwise_cons.1 spaced).2 (List.pairwise_cons.1 spaced').2 rest]

end

section

variable {bounds : AddressRange} {first : UInt64} {occupied other ranges : List AddressRange}

theorem eq_gaps (spaced : Spaced ranges)
    (holds : ∀ a : Address, (∃ r ∈ ranges, r.contains a = true) ↔
      bounds.contains a = true ∧ first ≤ a.toUInt64 ∧ ∀ c ∈ occupied, c.contains a = false) :
    ranges = gaps bounds first occupied := by
  have here (n : Nat) (small : n < UInt32.size) :
      Held ranges n ↔ Held (gaps bounds first occupied) n := by
    have number : (UInt32.ofNat n).toNat = n := UInt32.toNat_ofNat_of_lt' small
    rw [← number, held_iff_contains, held_iff_contains, holds, exists_gap_iff]
  apply eq_of_held spaced gaps_apart
  intro n
  constructor
  · intro held
    exact (here n (held_lt held)).1 held
  · intro held
    exact (here n (held_lt held)).2 held

/-- What is occupied counts by the addresses in it alone. -/
theorem gaps_congr (same : ∀ a : Address,
    (∃ c ∈ other, c.contains a = true) ↔ ∃ c ∈ occupied, c.contains a = true) :
    gaps bounds first other = gaps bounds first occupied := by
  have free (a : Address) :
      (∀ c ∈ other, c.contains a = false) ↔ ∀ c ∈ occupied, c.contains a = false := by
    simpa using not_congr (same a)
  apply eq_gaps gaps_apart
  intro a
  rw [exists_gap_iff, free]

/-- The gaps ascend, with an address at least between each two of them, and hold the addresses in bounds from
`first` on that nothing occupied holds; no other list does. In what order and how often a range is given as
occupied does not count. -/
theorem gaps_are_free_space (bounds : AddressRange) (first : UInt64) (occupied : List AddressRange) :
    (∀ ranges, ranges = gaps bounds first occupied ↔
      Spaced ranges ∧ ∀ a : Address, (∃ g ∈ ranges, g.contains a = true) ↔
        bounds.contains a = true ∧ first ≤ a.toUInt64 ∧ ∀ c ∈ occupied, c.contains a = false) ∧
    ∀ other, (∀ c, c ∈ other ↔ c ∈ occupied) →
      gaps bounds first other = gaps bounds first occupied := by
  constructor
  · intro ranges
    constructor
    · rintro rfl
      exact ⟨gaps_apart, fun a => exists_gap_iff⟩
    · rintro ⟨spaced, holds⟩
      exact eq_gaps spaced holds
  · intro other same
    apply gaps_congr
    intro a
    simp only [same]

/-- One range twice, one inside another, one below the bounds and one through the end of the space. -/
theorem repeated_ranges_leave_same_gaps :
    let inner : AddressRange := ⟨40, 60, by decide⟩
    let outer : AddressRange := ⟨30, 70, by decide⟩
    let low : AddressRange := ⟨0, 25, by decide⟩
    let high : AddressRange := ⟨100, 0xFFFFFFFF, by decide⟩
    (∀ c, c ∈ [high, inner, outer, high, low] ↔ c ∈ [low, outer, inner, high]) ∧
    gaps ⟨10, 0xFFFFFFFF, by decide⟩ 20 [high, inner, outer, high, low] =
      gaps ⟨10, 0xFFFFFFFF, by decide⟩ 20 [low, outer, inner, high] ∧
    [⟨26, 29, by decide⟩, ⟨71, 99, by decide⟩] =
      gaps ⟨10, 0xFFFFFFFF, by decide⟩ 20 [low, outer, inner, high] := by
  intro inner outer low high
  have same (c : AddressRange) :
      c ∈ [high, inner, outer, high, low] ↔ c ∈ [low, outer, inner, high] := by
    simp only [List.mem_cons, List.not_mem_nil]
    grind
  obtain ⟨unique, order⟩ := gaps_are_free_space ⟨10, 0xFFFFFFFF, by decide⟩ 20 [low, outer, inner, high]
  refine ⟨same, order _ same, (unique _).2 ⟨?_, fun a => ?_⟩⟩
  · simp [Spaced]
  · simp [AddressRange.contains, inner, outer, low, high, UInt32.le_iff_toNat_le, UInt64.le_iff_toNat_le]
    omega

end

end NetPool.Search
