import NetPool.Proofs.Draw
import NetPool.Proofs.Nesting
import NetPool.Proofs.Pool

/-! The search with strict arithmetic, which has no result where a number is no word, a difference is below
zero, a cursor is no address, or the ends of a range are out of order. In a pool that is made as configured
the strict search has a result throughout, and it is that of the search. -/

namespace NetPool.Strict

def add (a b : UInt64) : Option UInt64 :=
  if a.toNat + b.toNat < UInt64.size then some (a + b) else none

def sub (a b : UInt64) : Option UInt64 := if b ≤ a then some (a - b) else none

/-- Two to the power of `n`. -/
def power (n : Nat) : Option UInt64 := if n < 64 then some (1 <<< UInt64.ofNat n) else none

def narrow (a : UInt64) : Option Address := if a.toNat < UInt32.size then some a.toUInt32 else none

def span (start stop : UInt64) : Option AddressRange := do
  let a ← narrow start
  let b ← narrow stop
  (AddressRange.ofBounds a b).toOption

def size (r : AddressRange) : Option UInt64 := do
  let length ← sub r.stop.toUInt64 r.start.toUInt64
  add length 1

def maskSize (length : Nat) : Option UInt64 := power (32 - min length 32)

def alignUp (value alignment : UInt64) : Option UInt64 :=
  if alignment ≤ 1 then some value
  else do
    let sum ← add value alignment
    let upper ← sub sum 1
    let low ← sub alignment 1
    return upper &&& ~~~low

def firstCandidate (p : Pool) : Option UInt64 :=
  add p.bounds.start.toUInt64 p.reservedOffset.toUInt64

def blockSize (p : Pool) : Option UInt64 :=
  match p.kind with
  | .range => power p.blockExp
  | .subnet => maskSize p.subnetLen
  | .fixed => some 1

def gapsFrom (last cursor : UInt64) : List AddressRange → Option (List AddressRange)
  | [] =>
    if cursor ≤ last then do
      let gap ← span cursor last
      return [gap]
    else some []
  | claim :: rest =>
    if last < cursor then some []
    else if claim.stop.toUInt64 < cursor then gapsFrom last cursor rest
    else do
      let past ← add claim.stop.toUInt64 1
      if cursor < claim.start.toUInt64 then
        let prior ← sub claim.start.toUInt64 1
        let gap ← span cursor (min prior last)
        let later ← gapsFrom last (max cursor past) rest
        return gap :: later
      else gapsFrom last (max cursor past) rest

def gaps (bounds : AddressRange) (first : UInt64) (occupied : List AddressRange) :
    Option (List AddressRange) :=
  gapsFrom bounds.stop.toUInt64 (max first bounds.start.toUInt64)
    (occupied.mergeSort AddressRange.atMost)

def holds (block : UInt64) (gap : AddressRange) : Option Bool := do
  let room ← size gap
  return decide (block ≤ room)

/-- The block at the start of a gap. -/
def front (block : UInt64) (gap : AddressRange) : Option AddressRange := do
  let sum ← add gap.start.toUInt64 block
  let stop ← sub sum 1
  span gap.start.toUInt64 stop

def firstFit (bounds : AddressRange) (first block : UInt64) (claimed : List AddressRange) :
    Option (Option AddressRange) := do
  let gaps ← gaps bounds first claimed
  let found ← gaps.findM? (holds block)
  found.mapM (front block)

def freeAddresses (p : Pool) (claimed : List AddressRange) : Option (List AddressRange) := do
  let first ← firstCandidate p
  gaps p.bounds first (claimed ++ p.reserved.map .single)

def countFree : List AddressRange → Option UInt64
  | [] => some 0
  | gap :: rest => do
    let room ← size gap
    let more ← countFree rest
    add room more

def nthFree : List AddressRange → UInt64 → Option (Option Address)
  | [], _ => some none
  | gap :: rest, index => do
    let room ← size gap
    if index < room then
      let cursor ← add gap.start.toUInt64 index
      let found ← narrow cursor
      return some found
    else
      let left ← sub index room
      nthFree rest left

def stride (length : Nat) (h : length ≤ 32) (size stop : UInt64) :
    Nat → UInt64 → Option (List Subnet)
  | limit, start => do
    let next ← add start size
    let last ← sub next 1
    if last ≤ stop then
      match limit with
      | 0 => return []
      | limit + 1 =>
        let network ← narrow start
        let rest ← stride length h size stop limit next
        return Subnet.around network length h :: rest
    else return []

def subnetCandidates (bounds : AddressRange) (first : UInt64) (length : Nat) (live : List Subnet)
    (limit : Nat) : Option (List Subnet) :=
  if h : length ≤ 32 then do
    let size ← maskSize length
    let gaps ← gaps bounds first (live.map (·.range))
    let rows ← gaps.mapM fun gap => do
      let start ← alignUp gap.start.toUInt64 size
      stride length h size gap.stop.toUInt64 limit start
    return rows.flatten.take limit
  else some []

section

variable {a b : UInt64}

theorem word_sizes : UInt32.size = 4294967296 ∧ UInt64.size = 18446744073709551616 := ⟨rfl, rfl⟩

theorem add_fits (fits : a.toNat + b.toNat < UInt64.size) : add a b = some (a + b) := if_pos fits

theorem sub_fits (le : b ≤ a) : sub a b = some (a - b) := if_pos le

theorem succ_fits (small : a.toNat < UInt32.size) : add a 1 = some (a + 1) := by
  obtain ⟨space, word⟩ := word_sizes
  have one : (1 : UInt64).toNat = 1 := rfl
  apply add_fits
  omega

theorem pred_fits (pos : 0 < a.toNat) : sub a 1 = some (a - 1) :=
  sub_fits (UInt64.le_iff_toNat_le.2 pos)

theorem narrow_fits (fits : a.toNat < UInt32.size) : narrow a = some a.toUInt32 := if_pos fits

theorem span_fits (le : a ≤ b) (fits : b.toNat < UInt32.size) : span a b = some (.span a b) := by
  have order := UInt64.le_iff_toNat_le.1 le
  have space := word_sizes.1
  obtain ⟨start, stop⟩ := AddressRange.span_eq le fits
  rw [span, narrow_fits (by omega), narrow_fits fits]
  apply AddressRange.ofBounds_eq_some.2
  rw [← UInt32.toNat_inj, ← UInt32.toNat_inj, start, stop, UInt64.toNat_toUInt32, UInt64.toNat_toUInt32]
  omega

theorem maskSize_eq (length : Nat) : maskSize length = some (NetPool.maskSize length) :=
  if_pos (by omega)

end

theorem size_eq (r : AddressRange) : size r = some r.size := by
  have small := toUInt64_lt r.stop
  have space := word_sizes.1
  rw [size, sub_fits r.toUInt64_le]
  apply succ_fits
  rw [UInt64.toNat_sub_of_le _ _ r.toUInt64_le]
  omega

section

variable {last cursor : UInt64} {occupied : List AddressRange}

theorem gapsFrom_eq (small : last.toNat < UInt32.size) :
    gapsFrom last cursor occupied = some (Search.gapsFrom last cursor occupied) := by
  induction occupied generalizing cursor with
  | nil =>
    unfold gapsFrom Search.gapsFrom
    split
    · rename_i le
      rw [span_fits le small]
      rfl
    · rfl
  | cons claim rest ih =>
    unfold gapsFrom Search.gapsFrom
    split
    · rfl
    · rename_i within
      split
      · exact ih
      · have past := succ_fits (toUInt64_lt claim.stop)
        simp only [past, Option.bind_eq_bind, Option.bind_some, ih]
        split
        · rename_i ahead
          have within := UInt64.le_iff_toNat_le.1 (UInt64.not_lt.1 within)
          have ahead := UInt64.lt_iff_toNat_lt.1 ahead
          have prior := pred_fits (Nat.zero_lt_of_lt ahead)
          rw [UInt32.toNat_toUInt64] at ahead
          obtain ⟨le, stop⟩ := Search.front_stop within ahead
          simp only [prior, Option.bind_some, span_fits le (by omega)]
          rfl
        · rfl

end

theorem gaps_eq (bounds : AddressRange) (first : UInt64) (occupied : List AddressRange) :
    gaps bounds first occupied = some (Search.gaps bounds first occupied) :=
  gapsFrom_eq (toUInt64_lt bounds.stop)

theorem holds_eq (block : UInt64) (gap : AddressRange) :
    holds block gap = some (decide (block ≤ gap.size)) := by
  rw [holds, size_eq]
  rfl

theorem front_eq {gap : AddressRange} {block : UInt64} (pos : 0 < block) (room : block ≤ gap.size) :
    front block gap = some (.span gap.start.toUInt64 (gap.start.toUInt64 + block - 1)) := by
  have pos : 0 < block.toNat := UInt64.lt_iff_toNat_lt.1 pos
  have within := Search.block_within room
  have bound := gap.stop.toNat_lt_size
  have sum := Search.blockSum_toNat room
  have stop := Search.blockLast_toNat pos room
  obtain ⟨space, word⟩ := word_sizes
  have start := UInt32.toNat_toUInt64 gap.start
  rw [front, add_fits (by omega)]
  simp only [Option.bind_eq_bind, Option.bind_some]
  rw [pred_fits (by omega)]
  exact span_fits (by rw [UInt64.le_iff_toNat_le]; omega) (by omega)

theorem firstFit_eq (bounds : AddressRange) (first : UInt64) {block : UInt64} (pos : 0 < block)
    (claimed : List AddressRange) :
    firstFit bounds first block claimed = some (Search.firstFit bounds first block claimed) := by
  have search : (Search.gaps bounds first claimed).findM? (holds block) =
      some ((Search.gaps bounds first claimed).find? fun gap => decide (block ≤ gap.size)) := by
    rw [funext (holds_eq block)]
    exact List.findM?_pure _ _
  unfold firstFit Search.firstFit
  simp only [gaps_eq, search, Option.bind_eq_bind, Option.bind_some]
  cases found : (Search.gaps bounds first claimed).find? fun gap => decide (block ≤ gap.size) with
  | none => rfl
  | some gap =>
    have room : block ≤ gap.size := by simpa using List.find?_some found
    change (front block gap).map some = _
    rw [front_eq pos room]
    rfl

/-- The last address of an empty block would be below zero. -/
example : firstFit ⟨0, 10, by decide⟩ 0 0 [] = none := by decide +kernel

theorem freeAddresses_eq {p : Pool} (first : firstCandidate p = some p.firstCandidate)
    (claimed : List AddressRange) :
    freeAddresses p claimed = some (Search.freeAddresses p claimed) := by
  rw [freeAddresses, first]
  exact gaps_eq _ _ _

theorem nthFree_eq (gaps : List AddressRange) (index : UInt64) :
    nthFree gaps index = some (Search.nthFree gaps index) := by
  induction gaps generalizing index with
  | nil => rfl
  | cons gap rest ih =>
    unfold nthFree Search.nthFree
    simp only [size_eq, Option.bind_eq_bind, Option.bind_some]
    split
    · rename_i within
      have within := UInt64.lt_iff_toNat_lt.1 within
      have bound := gap.stop.toNat_lt_size
      have ordered := gap.start_le
      obtain ⟨space, word⟩ := word_sizes
      rw [gap.size_toNat] at within
      have start := UInt32.toNat_toUInt64 gap.start
      have cursor : (gap.start.toUInt64 + index).toNat = gap.start.toNat + index.toNat := by
        rw [UInt64.toNat_add, start]
        omega
      have small : (gap.start.toUInt64 + index).toNat < UInt32.size := by omega
      have found : offset? gap.start index = some (gap.start.toUInt64 + index).toUInt32 := by
        rw [offset?_eq_some, UInt64.toNat_toUInt32]
        omega
      rw [add_fits (by omega), found]
      simp only [Option.bind_some, narrow_fits small]
      rfl
    · rename_i beyond
      rw [sub_fits (UInt64.not_lt.1 beyond)]
      exact ih _

theorem countFree_eq {gaps : List AddressRange} (ascending : (Search.addresses gaps).Pairwise (· < ·)) :
    countFree gaps = some (Search.countFree gaps) := by
  induction gaps with
  | nil => rfl
  | cons gap rest ih =>
    have few := Search.length_addresses_le ascending
    rw [Search.addresses_cons] at ascending few
    have ascending := (List.pairwise_append.1 ascending).2.1
    have more := Search.countFree_toNat ascending
    rw [List.length_append, AddressRange.length_addresses, ← more] at few
    unfold countFree
    simp only [size_eq, ih ascending, Option.bind_eq_bind, Option.bind_some]
    exact add_fits (Nat.lt_of_le_of_lt few (by decide))

section

variable {length : Nat} {h : length ≤ 32} {start stop : UInt64}

/-- The end of a subnet can be told from any cursor in reach of the space. -/
theorem step_eq (h : length ≤ 32) (room : start.toNat < 2 ^ 63) :
    add start (NetPool.maskSize length) = some (start + NetPool.maskSize length) ∧
      sub (start + NetPool.maskSize length) 1 = some (start + NetPool.maskSize length - 1) := by
  have size := maskSize_toNat length h
  have power : 2 ^ (32 - length) ≤ 2 ^ 32 := Nat.pow_le_pow_right (by decide) (by omega)
  have pos : 0 < 2 ^ (32 - length) := Nat.two_pow_pos _
  obtain ⟨_, word⟩ := word_sizes
  constructor
  · apply add_fits
    omega
  · apply pred_fits
    rw [(add_maskSize_toNat h room).1]
    omega

theorem alignUp_eq (h : length ≤ 32) (a : Address) :
    alignUp a.toUInt64 (NetPool.maskSize length) =
      some (NetPool.alignUp a.toUInt64 (NetPool.maskSize length)) := by
  have bound := toUInt64_lt a
  obtain ⟨space, _⟩ := word_sizes
  have near : a.toUInt64.toNat < 2 ^ 63 := by omega
  obtain ⟨sum, upper⟩ := step_eq h near
  unfold alignUp NetPool.alignUp
  split
  · rfl
  · rename_i several
    have low : 1 ≤ NetPool.maskSize length := UInt64.le_of_lt (UInt64.not_le.1 several)
    simp only [sum, upper, sub_fits low, Option.bind_eq_bind, Option.bind_some]
    rfl

theorem stride_eq (small : stop.toNat < UInt32.size) (room : start.toNat < 2 ^ 63) (limit : Nat) :
    stride length h (NetPool.maskSize length) stop limit start =
      some (Search.stride length h stop limit start) := by
  obtain ⟨space, _⟩ := word_sizes
  have pos : 0 < 2 ^ (32 - length) := Nat.two_pow_pos _
  induction limit generalizing start with
  | zero =>
    obtain ⟨next, last⟩ := step_eq h room
    unfold stride
    simp only [next, last, Option.bind_eq_bind, Option.bind_some]
    split <;> rfl
  | succ limit ih =>
    obtain ⟨next, last⟩ := step_eq h room
    obtain ⟨nextNat, lastNat⟩ := add_maskSize_toNat h room
    unfold stride Search.stride
    simp only [next, last, Option.bind_eq_bind, Option.bind_some]
    split
    · rename_i within
      have within := UInt64.le_iff_toNat_le.1 within
      have network : narrow start = some start.toUInt32 := narrow_fits (by omega)
      have near : (start + NetPool.maskSize length).toNat < 2 ^ 63 := by omega
      simp only [network, ih near, Option.bind_some]
      rfl
    · rfl

end

/-- Steps that each have a result have one together. -/
theorem mapM_eq_some {α β : Type} {f : α → Option β} {g : α → β} {l : List α}
    (each : ∀ a ∈ l, f a = some (g a)) : l.mapM f = some (l.map g) := by
  induction l with
  | nil => rfl
  | cons a l ih =>
    rw [List.mapM_cons, each a List.mem_cons_self, ih fun b mem => each b (List.mem_cons_of_mem a mem)]
    rfl

theorem subnetCandidates_eq (bounds : AddressRange) (first : UInt64) (length : Nat)
    (live : List Subnet) (limit : Nat) : subnetCandidates bounds first length live limit =
      some (Search.subnetCandidates bounds first length live limit) := by
  unfold subnetCandidates Search.subnetCandidates
  split
  · rename_i h
    have rows : ∀ gap ∈ Search.gaps bounds first (live.map (·.range)),
        ((alignUp gap.start.toUInt64 (NetPool.maskSize length)).bind fun start =>
          stride length h (NetPool.maskSize length) gap.stop.toUInt64 limit start) =
        some (Search.stride length h gap.stop.toUInt64 limit
          (NetPool.alignUp gap.start.toUInt64 (NetPool.maskSize length))) := by
      intro gap _
      have within := Search.alignUp_le h gap.start
      rw [alignUp_eq h, Option.bind_some, stride_eq (toUInt64_lt gap.stop) (by omega)]
    simp only [maskSize_eq, gaps_eq, Option.bind_eq_bind, Option.bind_some, mapM_eq_some rows]
    rw [← List.flatMap_def]
    rfl
  · rfl

theorem firstCandidate_eq (p : Pool) : firstCandidate p = some p.firstCandidate := by
  have start := toUInt64_lt p.bounds.start
  have offset := toUInt64_lt p.reservedOffset
  obtain ⟨space, word⟩ := word_sizes
  exact add_fits (by omega)

theorem blockSize_eq {p : Pool} (le : p.blockExp ≤ 32) : blockSize p = some p.blockSize := by
  unfold blockSize Pool.blockSize
  cases p.kind with
  | range => exact if_pos (by omega)
  | subnet => exact maskSize_eq p.subnetLen
  | fixed => rfl

/-- A pool that is made as configured is sound, and no search in it leaves the words, the addresses or the
ranges, whatever is claimed or live in it: where it starts and how much it takes, the gaps, the first block
that fits, the free addresses, their count and each by its number, and the subnets to lease. -/
theorem configured_pool_searches_exactly {c : PoolConfig} {p : Pool} (made : Pool.ofConfig c = .ok p) :
    Pool.Configured c p ∧ firstCandidate p = some p.firstCandidate ∧ blockSize p = some p.blockSize ∧
    ∀ (claimed : List AddressRange) (live : List Subnet),
      gaps p.bounds p.firstCandidate claimed =
        some (Search.gaps p.bounds p.firstCandidate claimed) ∧
      firstFit p.bounds p.firstCandidate p.blockSize claimed =
        some (Search.firstFit p.bounds p.firstCandidate p.blockSize claimed) ∧
      freeAddresses p claimed = some (Search.freeAddresses p claimed) ∧
      countFree (Search.freeAddresses p claimed) =
        some (Search.countFree (Search.freeAddresses p claimed)) ∧
      (∀ index, nthFree (Search.freeAddresses p claimed) index =
        some (Search.nthFree (Search.freeAddresses p claimed) index)) ∧
      ∀ limit, subnetCandidates p.bounds p.firstCandidate p.subnetLen live limit =
        some (Search.subnetCandidates p.bounds p.firstCandidate p.subnetLen live limit) := by
  have configured := Pool.ofConfig_configured made
  have first := firstCandidate_eq p
  refine ⟨configured, first, blockSize_eq (Pool.ofConfig_blockExp_le made), fun claimed live => ?_⟩
  have fit := firstFit_eq p.bounds p.firstCandidate (UInt64.lt_iff_toNat_lt.2 p.blockSize_pos) claimed
  have count := countFree_eq (Search.addresses_ascending p.bounds p.firstCandidate
    (claimed ++ p.reserved.map .single))
  exact ⟨gaps_eq _ _ _, fit, freeAddresses_eq first claimed, count, nthFree_eq _,
    subnetCandidates_eq _ _ _ _⟩

/-! One block that is the whole space. -/

def wholeConfig : PoolConfig where
  name := "blue"
  kind := .range
  subnet := "0.0.0.0/0"
  rangeStart := none
  rangeEnd := none
  gateway := some "255.255.255.255"
  reservedOffset := 0
  blockExp := some 32
  subnetLen := none
  previousSubnet := none

def whole : Pool :=
  { Pool.covering "blue" .range (.around 0 0 (by decide)) with
    reserved := [0, 0xFFFFFFFF], gateway := some 0xFFFFFFFF, blockExp := 32 }

theorem wholeConfig_made : Pool.ofConfig wholeConfig = .ok whole := rfl

theorem whole_space_fits : Pool.ofConfig wholeConfig = .ok whole ∧
    blockSize whole = some spaceSize ∧
    firstFit whole.bounds whole.firstCandidate whole.blockSize [] =
      some (some ⟨0, 0xFFFFFFFF, by decide⟩) := by
  obtain ⟨_, _, size, search⟩ := configured_pool_searches_exactly wholeConfig_made
  obtain ⟨_, fit, _⟩ := search [] []
  refine ⟨wholeConfig_made, size.trans (by decide), fit.trans ?_⟩
  decide +kernel

end NetPool.Strict
