import NetPool.Pool.Search
import NetPool.Proofs.Address

/-! The search for free space. Gaps and blocks keep clear of everything that is occupied. -/

namespace NetPool.Search

/-- A gap lies between the cursor and the end, clear of all that is occupied. -/
def Clear (last cursor : UInt64) (occupied : List AddressRange) (g : AddressRange) : Prop :=
  cursor.toNat ≤ g.start.toNat ∧ g.stop.toNat ≤ last.toNat ∧ ∀ c ∈ occupied, g.overlaps c = false

theorem not_overlaps_iff {r s : AddressRange} :
    r.overlaps s = false ↔ r.stop.toNat < s.start.toNat ∨ s.stop.toNat < r.start.toNat := by
  rw [← Bool.not_eq_true, AddressRange.overlaps_iff]
  omega

theorem Clear.cons {last cursor next : UInt64} {c g : AddressRange} {occupied : List AddressRange}
    (clear : Clear last next occupied g) (le : cursor.toNat ≤ next.toNat)
    (past : c.stop.toNat < next.toNat) : Clear last cursor (c :: occupied) g := by
  obtain ⟨low, high, rest⟩ := clear
  refine ⟨by omega, high, fun d mem => ?_⟩
  rcases List.mem_cons.1 mem with rfl | mem
  · exact not_overlaps_iff.2 (.inr (by omega))
  · exact rest d mem

theorem Clear.within {last cursor : UInt64} {occupied : List AddressRange} {g r : AddressRange}
    (clear : Clear last cursor occupied g) (start : g.start.toNat ≤ r.start.toNat)
    (stop : r.stop.toNat ≤ g.stop.toNat) : Clear last cursor occupied r := by
  obtain ⟨low, high, apart⟩ := clear
  refine ⟨by omega, by omega, fun c mem => not_overlaps_iff.2 ?_⟩
  have := not_overlaps_iff.1 (apart c mem)
  omega

/-- The gap in front of a claim begins at the cursor and ends in the space. -/
theorem front_stop {last cursor : UInt64} {c : AddressRange} (within : cursor.toNat ≤ last.toNat)
    (ahead : cursor.toNat < c.start.toNat) :
    cursor ≤ min (c.start.toUInt64 - 1) last ∧
      (min (c.start.toUInt64 - 1) last).toNat = min (c.start.toNat - 1) last.toNat := by
  have start := UInt32.toNat_toUInt64 c.start
  have stop : (min (c.start.toUInt64 - 1) last).toNat = min (c.start.toNat - 1) last.toNat := by
    rw [min_toNat, toNat_sub_one (by omega), start]
  refine ⟨?_, stop⟩
  rw [UInt64.le_iff_toNat_le, stop]
  omega

theorem front_toNat {last cursor : UInt64} {c : AddressRange} (small : last.toNat < 4294967296)
    (within : cursor.toNat ≤ last.toNat) (ahead : cursor.toNat < c.start.toNat) :
    (AddressRange.span cursor (min (c.start.toUInt64 - 1) last)).start.toNat = cursor.toNat ∧
      (AddressRange.span cursor (min (c.start.toUInt64 - 1) last)).stop.toNat =
        min (c.start.toNat - 1) last.toNat := by
  obtain ⟨le, stop⟩ := front_stop within ahead
  rw [← stop]
  exact AddressRange.span_eq le (by omega)

theorem past_toNat (cursor : UInt64) (c : AddressRange) :
    (max cursor (c.stop.toUInt64 + 1)).toNat = max cursor.toNat (c.stop.toNat + 1) := by
  have stop := c.stop.toNat_lt
  have next : (c.stop.toUInt64 + 1).toNat = c.stop.toNat + 1 := by
    rw [UInt64.toNat_add, UInt32.toNat_toUInt64]
    change (c.stop.toNat + 1) % 2 ^ 64 = _
    omega
  rw [max_toNat, next]

/-- The gap in front of a claim ends before it, and so before all later ones. -/
theorem front_clear {last cursor : UInt64} {c : AddressRange} {occupied : List AddressRange}
    (before : ∀ d ∈ occupied, c.start.toNat ≤ d.start.toNat) (small : last.toNat < 4294967296)
    (within : cursor.toNat ≤ last.toNat) (ahead : cursor.toNat < c.start.toNat) :
    Clear last cursor (c :: occupied) (.span cursor (min (c.start.toUInt64 - 1) last)) := by
  obtain ⟨gapStart, gapStop⟩ := front_toNat small within ahead
  refine ⟨by omega, by omega, fun d mem => not_overlaps_iff.2 (.inl ?_)⟩
  rcases List.mem_cons.1 mem with rfl | mem
  · omega
  · have := before d mem
    omega

/-- There is no gap from a cursor past the end. -/
theorem gapsFrom_past {last cursor : UInt64} {occupied : List AddressRange}
    (past : last.toNat < cursor.toNat) : gapsFrom last cursor occupied = [] := by
  have past := UInt64.lt_iff_toNat_lt.2 past
  cases occupied with
  | nil => exact if_neg (UInt64.not_le.2 past)
  | cons c occupied => exact if_pos past

/-- A claim has a gap in front of it unless it starts by the cursor, and takes the cursor past its end. -/
theorem gapsFrom_cons {last cursor : UInt64} (within : cursor.toNat ≤ last.toNat) (c : AddressRange)
    (occupied : List AddressRange) : gapsFrom last cursor (c :: occupied) =
      (if cursor.toNat < c.start.toNat then [.span cursor (min (c.start.toUInt64 - 1) last)] else []) ++
        gapsFrom last (max cursor (c.stop.toUInt64 + 1)) occupied := by
  have within : ¬ last < cursor := UInt64.not_lt.2 (UInt64.le_iff_toNat_le.2 within)
  have ordered := c.start_le
  rw [gapsFrom, if_neg within]
  simp only [UInt64.lt_iff_toNat_lt, UInt32.toNat_toUInt64]
  split
  · -- A claim that ends before the cursor does not move it.
    rename_i skipped
    have stays : max cursor (c.stop.toUInt64 + 1) = cursor := by
      apply UInt64.toNat_inj.1
      rw [past_toNat]
      omega
    rw [stays, if_neg (by omega)]
    rfl
  · split <;> rfl

theorem gapsFrom_clear {last cursor : UInt64} {occupied : List AddressRange}
    (sorted : occupied.Pairwise (·.start.toNat ≤ ·.start.toNat)) (small : last.toNat < 4294967296) :
    ∀ g ∈ gapsFrom last cursor occupied, Clear last cursor occupied g := by
  induction occupied generalizing cursor with
  | nil =>
    intro g mem
    unfold gapsFrom at mem
    split at mem
    · rename_i le
      cases List.mem_singleton.1 mem
      obtain ⟨start, stop⟩ := AddressRange.span_eq le small
      exact ⟨Nat.le_of_eq start.symm, Nat.le_of_eq stop, fun _ none => nomatch none⟩
    · cases mem
  | cons c occupied ih =>
    intro g mem
    obtain ⟨before, sorted⟩ := List.pairwise_cons.1 sorted
    rcases Nat.lt_or_ge last.toNat cursor.toNat with past | within
    · rw [gapsFrom_past past] at mem
      cases mem
    rw [gapsFrom_cons within, List.mem_append] at mem
    rcases mem with front | later
    · split at front
      · rename_i ahead
        cases List.mem_singleton.1 front
        exact front_clear before small within ahead
      · cases front
    · have bound := past_toNat cursor c
      exact (ih sorted g later).cons (by omega) (by omega)

theorem atMost_trans (a b c : AddressRange) :
    a.atMost b = true → b.atMost c = true → a.atMost c = true := by
  intro ab bc
  simp only [AddressRange.atMost, AddressRange.less, Bool.not_eq_true', Bool.or_eq_false_iff,
    Bool.and_eq_false_iff, decide_eq_false_iff_not, beq_eq_false_iff_ne, UInt32.lt_iff_toNat_lt,
    ne_eq, ← UInt32.toNat_inj] at *
  omega

theorem atMost_total (a b : AddressRange) : (a.atMost b || b.atMost a) = true := by
  simp only [AddressRange.atMost, AddressRange.less, Bool.or_eq_true, Bool.not_eq_true',
    Bool.or_eq_false_iff, Bool.and_eq_false_iff, decide_eq_false_iff_not, beq_eq_false_iff_ne,
    UInt32.lt_iff_toNat_lt, ne_eq, ← UInt32.toNat_inj]
  omega

theorem atMost_of_start_lt {a b : AddressRange} (lt : a.start.toNat < b.start.toNat) :
    a.atMost b = true := by
  simp only [AddressRange.atMost, AddressRange.less, Bool.not_eq_true', Bool.or_eq_false_iff,
    Bool.and_eq_false_iff, decide_eq_false_iff_not, beq_eq_false_iff_ne, UInt32.lt_iff_toNat_lt, ne_eq,
    ← UInt32.toNat_inj]
  omega

theorem start_le_of_atMost {a b : AddressRange} (le : a.atMost b = true) :
    a.start.toNat ≤ b.start.toNat := by
  simp only [AddressRange.atMost, AddressRange.less, Bool.not_eq_true', Bool.or_eq_false_iff,
    decide_eq_false_iff_not, UInt32.lt_iff_toNat_lt] at le
  omega

theorem sorted_starts (occupied : List AddressRange) :
    (occupied.mergeSort AddressRange.atMost).Pairwise (·.start.toNat ≤ ·.start.toNat) :=
  (List.pairwise_mergeSort atMost_trans atMost_total occupied).imp start_le_of_atMost

theorem gaps_clear {bounds : AddressRange} {first : UInt64} {occupied : List AddressRange} :
    ∀ g ∈ gaps bounds first occupied,
      Clear bounds.stop.toUInt64 (max first bounds.start.toUInt64) occupied g := by
  intro g mem
  obtain ⟨low, high, clear⟩ := gapsFrom_clear (sorted_starts occupied) (toUInt64_lt bounds.stop) g mem
  exact ⟨low, high, fun c claimed => clear c (List.mem_mergeSort.2 claimed)⟩

/-- A block that a gap holds ends in it. -/
theorem block_within {gap : AddressRange} {block : UInt64} (holds : block ≤ gap.size) :
    gap.start.toNat + block.toNat ≤ gap.stop.toNat + 1 := by
  have room := UInt64.le_iff_toNat_le.1 holds
  have ordered := gap.start_le
  rw [gap.size_toNat] at room
  omega

theorem blockSum_toNat {gap : AddressRange} {block : UInt64} (holds : block ≤ gap.size) :
    (gap.start.toUInt64 + block).toNat = gap.start.toNat + block.toNat := by
  have within := block_within holds
  have bound := gap.stop.toNat_lt
  rw [UInt64.toNat_add, UInt32.toNat_toUInt64]
  omega

theorem blockLast_toNat {gap : AddressRange} {block : UInt64} (pos : 0 < block.toNat)
    (holds : block ≤ gap.size) :
    (gap.start.toUInt64 + block - 1).toNat = gap.start.toNat + block.toNat - 1 := by
  have sum := blockSum_toNat holds
  rw [toNat_sub_one (by omega), sum]

/-- The block at the start of a gap that holds it. -/
theorem block_toNat {gap : AddressRange} {block : UInt64} (pos : 0 < block.toNat)
    (holds : block ≤ gap.size) :
    (AddressRange.span gap.start.toUInt64 (gap.start.toUInt64 + block - 1)).start.toNat =
        gap.start.toNat ∧
      (AddressRange.span gap.start.toUInt64 (gap.start.toUInt64 + block - 1)).stop.toNat =
        gap.start.toNat + block.toNat - 1 := by
  have within := block_within holds
  have bound := gap.stop.toNat_lt
  have last := blockLast_toNat pos holds
  rw [← last, ← UInt32.toNat_toUInt64 gap.start]
  exact AddressRange.span_eq (by rw [UInt64.le_iff_toNat_le, last, UInt32.toNat_toUInt64]; omega) (by omega)

/-- The block found has the size asked for, lies in bounds and overlaps nothing that is claimed. -/
theorem firstFit_sound {bounds r : AddressRange} {first block : UInt64} {claimed : List AddressRange}
    (found : firstFit bounds first block claimed = some r) (pos : 0 < block.toNat) :
    r.size.toNat = block.toNat ∧
      Clear bounds.stop.toUInt64 (max first bounds.start.toUInt64) claimed r := by
  obtain ⟨gap, fits, rfl⟩ := Option.map_eq_some_iff.1 found
  have holds : block ≤ gap.size := by simpa using List.find?_some fits
  have room := UInt64.le_iff_toNat_le.1 holds
  rw [gap.size_toNat] at room
  have clear := gaps_clear gap (List.mem_of_find?_eq_some fits)
  have ordered := gap.start_le
  obtain ⟨start, stop⟩ := block_toNat pos holds
  refine ⟨?_, clear.within (by omega) (by omega)⟩
  rw [AddressRange.size_toNat]
  omega

/-- A range that is free lies in one of the gaps. -/
theorem gapsFrom_covers {last cursor : UInt64} {occupied : List AddressRange} {r : AddressRange}
    (small : last.toNat < 4294967296) (clear : Clear last cursor occupied r) :
    ∃ g ∈ gapsFrom last cursor occupied,
      g.start.toNat ≤ r.start.toNat ∧ r.stop.toNat ≤ g.stop.toNat := by
  have ordered := r.start_le
  induction occupied generalizing cursor with
  | nil =>
    obtain ⟨low, high, _⟩ := clear
    have le : cursor ≤ last := UInt64.le_iff_toNat_le.2 (by omega)
    obtain ⟨start, stop⟩ := AddressRange.span_eq le small
    rw [gapsFrom, if_pos le]
    exact ⟨_, List.mem_singleton_self _, by omega, by omega⟩
  | cons c occupied ih =>
    obtain ⟨low, high, apart⟩ := clear
    have rest : ∀ d ∈ occupied, r.overlaps d = false := fun d mem => apart d (List.mem_cons_of_mem c mem)
    have bound := past_toNat cursor c
    rw [gapsFrom_cons (by omega)]
    -- The range lies in the gap in front of this claim, or past the claim.
    rcases not_overlaps_iff.1 (apart c List.mem_cons_self) with before | past
    · have ahead : cursor.toNat < c.start.toNat := by omega
      obtain ⟨start, stop⟩ := front_toNat small (by omega) ahead
      rw [if_pos ahead]
      exact ⟨_, List.mem_cons_self, by omega, by omega⟩
    · have later : (max cursor (c.stop.toUInt64 + 1)).toNat ≤ r.start.toNat := by omega
      obtain ⟨g, mem, inside⟩ := ih ⟨later, high, rest⟩
      exact ⟨g, List.mem_append_right _ mem, inside⟩

/-- At least one address lies between two gaps. -/
theorem gapsFrom_apart {last cursor : UInt64} {occupied : List AddressRange}
    (sorted : occupied.Pairwise (·.start.toNat ≤ ·.start.toNat)) (small : last.toNat < 4294967296) :
    (gapsFrom last cursor occupied).Pairwise (·.stop.toNat + 1 < ·.start.toNat) := by
  induction occupied generalizing cursor with
  | nil =>
    unfold gapsFrom
    split
    · exact List.pairwise_singleton _ _
    · exact .nil
  | cons c occupied ih =>
    have rest := (List.pairwise_cons.1 sorted).2
    rcases Nat.lt_or_ge last.toNat cursor.toNat with past | within
    · rw [gapsFrom_past past]
      exact .nil
    rw [gapsFrom_cons within]
    split
    · rename_i ahead
      refine List.pairwise_cons.2 ⟨fun g mem => ?_, ih rest⟩
      obtain ⟨_, stop⟩ := front_toNat small within ahead
      have low := (gapsFrom_clear rest small g mem).1
      have bound := past_toNat cursor c
      have ordered := c.start_le
      omega
    · exact ih rest

theorem gaps_apart {bounds : AddressRange} {first : UInt64} {occupied : List AddressRange} :
    (gaps bounds first occupied).Pairwise (·.stop.toNat + 1 < ·.start.toNat) :=
  gapsFrom_apart (sorted_starts occupied) (toUInt64_lt bounds.stop)

theorem gaps_covers {bounds r : AddressRange} {first : UInt64} {occupied : List AddressRange}
    (clear : Clear bounds.stop.toUInt64 (max first bounds.start.toUInt64) occupied r) :
    ∃ g ∈ gaps bounds first occupied, g.start.toNat ≤ r.start.toNat ∧ r.stop.toNat ≤ g.stop.toNat :=
  gapsFrom_covers (toUInt64_lt bounds.stop)
    ⟨clear.1, clear.2.1, fun c there => clear.2.2 c (List.mem_mergeSort.1 there)⟩

theorem start_le_of_find? {gaps : List AddressRange} {g : AddressRange} (test : AddressRange → Bool)
    (ascending : gaps.Pairwise (·.start.toNat ≤ ·.start.toNat)) (mem : g ∈ gaps) (passes : test g = true) :
    ∃ h, gaps.find? test = some h ∧ h.start.toNat ≤ g.start.toNat := by
  induction gaps with
  | nil => cases mem
  | cons a gaps ih =>
    obtain ⟨first, ascending⟩ := List.pairwise_cons.1 ascending
    by_cases found : test a = true
    · refine ⟨a, List.find?_cons_of_pos found, ?_⟩
      rcases List.mem_cons.1 mem with rfl | mem
      · exact Nat.le_refl _
      · exact first g mem
    · rw [List.find?_cons_of_neg found]
      rcases List.mem_cons.1 mem with rfl | mem
      · exact absurd passes found
      · exact ih ascending mem

/-- Where a free block is in bounds one is found, and none starts before the one that is found. -/
theorem firstFit_least {bounds r : AddressRange} {first block : UInt64} {claimed : List AddressRange}
    (pos : 0 < block.toNat) (size : r.size.toNat = block.toNat)
    (clear : Clear bounds.stop.toUInt64 (max first bounds.start.toUInt64) claimed r) :
    ∃ q, firstFit bounds first block claimed = some q ∧ q.start.toNat ≤ r.start.toNat := by
  have ascending : (gaps bounds first claimed).Pairwise (·.start.toNat ≤ ·.start.toNat) := by
    refine gaps_apart.imp fun {g h} apart => ?_
    have ordered := g.start_le
    omega
  obtain ⟨g, mem, low, high⟩ := gaps_covers clear
  have holds : block ≤ g.size := by
    rw [AddressRange.size_toNat] at size
    rw [UInt64.le_iff_toNat_le, AddressRange.size_toNat]
    omega
  obtain ⟨h, found, before⟩ := start_le_of_find? (fun gap => block ≤ gap.size) ascending mem
    (decide_eq_true holds)
  have room : block ≤ h.size := by simpa using List.find?_some found
  refine ⟨.span h.start.toUInt64 (h.start.toUInt64 + block - 1), ?_, ?_⟩
  · rw [firstFit, found]
    rfl
  · rw [(block_toNat pos room).1]
    omega

/-- A range to take: in bounds, not before `first`, and clear of all that is occupied. -/
structure Vacant (bounds : AddressRange) (first : UInt64) (occupied : List AddressRange)
    (r : AddressRange) : Prop where
  inside : bounds.containsRange r = true
  behind : first ≤ r.start.toUInt64
  clear : ∀ c ∈ occupied, r.overlaps c = false

theorem vacant_iff_clear {bounds r : AddressRange} {first : UInt64} {occupied : List AddressRange} :
    Vacant bounds first occupied r ↔
      Clear bounds.stop.toUInt64 (max first bounds.start.toUInt64) occupied r := by
  rw [Clear, max_toNat, UInt32.toNat_toUInt64, UInt32.toNat_toUInt64]
  constructor
  · rintro ⟨inside, behind, clear⟩
    obtain ⟨low, high⟩ := AddressRange.containsRange_iff.1 inside
    rw [UInt64.le_iff_toNat_le, UInt32.toNat_toUInt64] at behind
    exact ⟨Nat.max_le.2 ⟨behind, low⟩, high, clear⟩
  · rintro ⟨low, high, clear⟩
    obtain ⟨behind, low⟩ := Nat.max_le.1 low
    refine ⟨AddressRange.containsRange_iff.2 ⟨low, high⟩, ?_, clear⟩
    rwa [UInt64.le_iff_toNat_le, UInt32.toNat_toUInt64]

/-- The gaps hold the addresses in bounds from `first` on that nothing occupied holds. -/
theorem exists_gap_iff {bounds : AddressRange} {first : UInt64} {occupied : List AddressRange}
    {a : Address} : (∃ g ∈ gaps bounds first occupied, g.contains a = true) ↔
      bounds.contains a = true ∧ first ≤ a.toUInt64 ∧ ∀ c ∈ occupied, c.contains a = false := by
  have apart (c : AddressRange) : (AddressRange.single a).overlaps c = c.contains a := Bool.and_comm _ _
  constructor
  · rintro ⟨g, mem, inside⟩
    obtain ⟨low, high⟩ := AddressRange.contains_iff.1 inside
    have vacant := vacant_iff_clear.2 ((gaps_clear g mem).within (r := .single a) low high)
    exact ⟨vacant.inside, vacant.behind, fun c there => apart c ▸ vacant.clear c there⟩
  · rintro ⟨inside, behind, free⟩
    have vacant : Vacant bounds first occupied (.single a) :=
      ⟨inside, behind, fun c there => (apart c).trans (free c there)⟩
    obtain ⟨g, mem, low, high⟩ := gaps_covers (vacant_iff_clear.1 vacant)
    exact ⟨g, mem, AddressRange.contains_iff.2 ⟨low, high⟩⟩

/-- So many addresses in a row to take. -/
structure Room (bounds : AddressRange) (first block : UInt64) (claimed : List AddressRange)
    (r : AddressRange) : Prop extends Vacant bounds first claimed r where
  size : r.stop.toNat + 1 = r.start.toNat + block.toNat

section

variable {bounds r : AddressRange} {first block : UInt64} {claimed : List AddressRange}

theorem Room.size_toNat (room : Room bounds first block claimed r) : r.size.toNat = block.toNat := by
  have size := room.size
  have ordered := r.start_le
  rw [AddressRange.size_toNat]
  omega

theorem Room.found (room : Room bounds first block claimed r) (pos : 0 < block) :
    ∃ q, firstFit bounds first block claimed = some q ∧ q.start ≤ r.start := by
  obtain ⟨q, fits, before⟩ := firstFit_least (UInt64.lt_iff_toNat_lt.1 pos) room.size_toNat
    (vacant_iff_clear.1 room.toVacant)
  exact ⟨q, fits, UInt32.le_iff_toNat_le.2 before⟩

/-- What is found is room for the block, and the first there is. -/
theorem firstFit_room (pos : 0 < block) (found : firstFit bounds first block claimed = some r) :
    Room bounds first block claimed r ∧ ∀ q, Room bounds first block claimed q → r.start ≤ q.start := by
  obtain ⟨size, clear⟩ := firstFit_sound found (UInt64.lt_iff_toNat_lt.1 pos)
  have ordered := r.start_le
  rw [AddressRange.size_toNat] at size
  refine ⟨⟨vacant_iff_clear.2 clear, by omega⟩, fun q room => ?_⟩
  obtain ⟨other, fits, before⟩ := room.found pos
  cases found.symm.trans fits
  exact before

/-- A block is found if and only if there is room for it in bounds from `first` on, and it takes the room
that starts first. -/
theorem firstFit_takes_earliest (pos : 0 < block) :
    (∀ r, firstFit bounds first block claimed = some r ↔ Room bounds first block claimed r ∧
      ∀ q, Room bounds first block claimed q → r.start ≤ q.start) ∧
    (firstFit bounds first block claimed = none ↔ ∀ q, ¬ Room bounds first block claimed q) := by
  refine ⟨fun r => ⟨firstFit_room pos, fun ⟨room, least⟩ => ?_⟩, fun none q room => ?_, fun full => ?_⟩
  · obtain ⟨q, fits, before⟩ := room.found pos
    have other := (firstFit_room pos fits).1
    have start : q.start = r.start := UInt32.le_antisymm before (least q other)
    rw [fits, AddressRange.eq_of_start_size start (other.size_toNat.trans room.size_toNat.symm)]
  · obtain ⟨r, fits, _⟩ := room.found pos
    cases none.symm.trans fits
  · exact Option.eq_none_iff_forall_ne_some.2 fun r fits => full r (firstFit_room pos fits).1

end

/-- Claims in no order: one below the bounds and into `first`, two that overlap, one through the end of the
space. The first gap is too small. -/
theorem second_gap_fits : (0 : UInt64) < 16 ∧
    firstFit ⟨10, 0xFFFFFFFF, by decide⟩ 20 16
        [⟨100, 0xFFFFFFFF, by decide⟩, ⟨0, 25, by decide⟩, ⟨50, 60, by decide⟩, ⟨40, 55, by decide⟩] =
      some ⟨61, 76, by decide⟩ := by
  refine ⟨by decide, ((firstFit_takes_earliest (by decide)).1 _).2
    ⟨⟨⟨by decide, by decide, by decide⟩, by decide⟩, fun q room => ?_⟩⟩
  have size : q.stop.toNat + 1 = q.start.toNat + 16 := room.size
  have behind : 20 ≤ q.start.toNat := UInt64.le_iff_toNat_le.1 room.behind
  have first : q.stop.toNat < 0 ∨ 25 < q.start.toNat :=
    not_overlaps_iff.1 (room.clear ⟨0, 25, by decide⟩ (by decide))
  have second : q.stop.toNat < 40 ∨ 55 < q.start.toNat :=
    not_overlaps_iff.1 (room.clear ⟨40, 55, by decide⟩ (by decide))
  have third : q.stop.toNat < 50 ∨ 60 < q.start.toNat :=
    not_overlaps_iff.1 (room.clear ⟨50, 60, by decide⟩ (by decide))
  rw [UInt32.le_iff_toNat_le]
  change 61 ≤ q.start.toNat
  omega

end NetPool.Search
