import Mathlib.Algebra.Group.Nat.Defs
import Mathlib.Data.List.Basic
import Mathlib.Data.Option.Basic
import NetPool.Claim.Layout
import NetPool.Proofs.Address
import NetPool.Proofs.Store.Order

/-! Claim keys built and read back. A key tells its pool and its slot. -/

namespace NetPool

open Text

theorem guard_eq_some {c : Prop} [Decidable c] {u : Unit} : guard c = some u ↔ c := by
  change (if c then some () else none) = some u ↔ c
  split <;> simp [*]

/-! Blocks. Their sizes are the powers of two within the space. -/

theorem blockExponent_eq_some {size : UInt64} {n : Nat} :
    blockExponent size = some n ↔ size.toNat = 2 ^ n ∧ n ≤ 32 := by
  have pos : size = 0 ↔ size.toNat = 0 := by
    rw [← UInt64.toNat_inj]; rfl
  have space : spaceSize < size ↔ 2 ^ 32 < size.toNat := UInt64.lt_iff_toNat_lt
  have power (nonzero : size.toNat ≠ 0) :
      size &&& (size - 1) = 0 ↔ ∃ k, size.toNat = 2 ^ k := by
    rw [← UInt64.toNat_inj, UInt64.toNat_and, toNat_sub_one (Nat.pos_of_ne_zero nonzero)]
    exact Nat.and_sub_one_eq_zero_iff_isPowerOfTwo nonzero
  unfold blockExponent
  constructor
  · intro h
    split at h
    · cases h
    · rename_i fine
      rw [not_or, not_or, Classical.not_not] at fine
      obtain ⟨nonzero, two, within⟩ := fine
      obtain ⟨k, eq⟩ := (power fun zero => nonzero (pos.2 zero)).1 two
      rw [eq, Nat.log2_two_pow] at h
      cases h
      rw [space, eq] at within
      exact ⟨eq, (Nat.pow_le_pow_iff_right (by decide)).1 (Nat.le_of_not_lt within)⟩
  · rintro ⟨eq, le⟩
    have nonzero : size.toNat ≠ 0 := by
      rw [eq]
      exact Nat.ne_of_gt (Nat.two_pow_pos n)
    have within : size.toNat ≤ 2 ^ 32 := by
      rw [eq]
      exact Nat.pow_le_pow_right (by decide) le
    rw [if_neg, eq, Nat.log2_two_pow]
    rintro (zero | other | large)
    · exact nonzero (pos.1 zero)
    · exact other ((power nonzero).2 ⟨n, eq⟩)
    · exact Nat.not_lt.2 within (space.1 large)

theorem one_shiftLeft_toNat {n : Nat} (le : n ≤ 32) :
    ((1 : UInt64) <<< UInt64.ofNat n).toNat = 2 ^ n := by
  have shift : (UInt64.ofNat n).toNat = n := UInt64.toNat_ofNat_of_lt' (by
    have small : (32 : Nat) < UInt64.size := by decide
    omega)
  have power : 2 ^ n ≤ 2 ^ 32 := Nat.pow_le_pow_right (by decide) le
  rw [UInt64.toNat_shiftLeft, shift, Nat.mod_eq_of_lt (by omega : n < 64)]
  change 1 <<< n % 2 ^ 64 = 2 ^ n
  rw [Nat.one_shiftLeft, Nat.mod_eq_of_lt (by omega)]

theorem one_shiftLeft_pos (n : UInt64) : 0 < ((1 : UInt64) <<< n).toNat := by
  have small : n.toNat % 64 < 64 := Nat.mod_lt _ (by decide)
  have power : 2 ^ (n.toNat % 64) < 2 ^ 64 := Nat.pow_lt_pow_right (by decide) small
  rw [UInt64.toNat_shiftLeft]
  change 0 < 1 <<< (n.toNat % 64) % 2 ^ 64
  rw [Nat.one_shiftLeft, Nat.mod_eq_of_lt power]
  exact Nat.two_pow_pos _

namespace KeyLayout

/-- How far the last address of a block is past the first one. -/
theorem blockSpan_toNat {n : Nat} (le : n ≤ 32) :
    ((1 : UInt64) <<< UInt64.ofNat n - 1).toNat = 2 ^ n - 1 := by
  rw [toNat_sub_one (one_shiftLeft_pos _), one_shiftLeft_toNat le]

theorem block?_eq_some {a : Address} {n : Nat} {r : AddressRange} :
    block? a.toNat n = some r ↔ r.start = a ∧ r.size.toNat = 2 ^ n ∧ n ≤ 32 := by
  have ordered := r.start_le
  have pos := Nat.two_pow_pos n
  unfold block?
  split
  · rename_i le
    simp only [UInt32.ofNat_toNat, Option.bind_eq_some_iff, offset?_eq_some, blockSpan_toNat le,
      AddressRange.ofBounds_eq_some, r.size_toNat]
    constructor
    · rintro ⟨stop, last, rfl, rfl⟩
      exact ⟨rfl, by omega, le⟩
    · rintro ⟨rfl, size, _⟩
      exact ⟨r.stop, by omega, rfl, rfl⟩
  · rename_i large
    constructor
    · intro h
      cases h
    · rintro ⟨_, _, le⟩
      exact absurd le large

theorem claimStart_toList (l : KeyLayout) (kind : PoolKind) (pool : String) :
    (l.claimStart kind pool).toList = (l.kindStart kind).toList ++ (pool.toList ++ ['/']) := by
  simp [claimStart]

/-- A pool whose claims can be told from their keys. -/
def Named (pool : String) : Prop := pool ≠ "" ∧ '/' ∉ pool.toList

theorem claimParts?_eq_some {l : KeyLayout} {kind : PoolKind} {key : String} {q slot : List Char} :
    l.claimParts? kind key = some (q, slot) ↔
      key.toList = (l.kindStart kind).toList ++ (q ++ '/' :: slot) ∧
        '/' ∉ q ∧ q ≠ [] ∧ slot ≠ [] ∧ '/' ∉ slot := by
  unfold claimParts?
  constructor
  · intro parts
    obtain ⟨rest, whole, parts⟩ := Option.bind_eq_some_iff.1 parts
    obtain ⟨⟨a, b⟩, cut, parts⟩ := Option.bind_eq_some_iff.1 parts
    obtain ⟨u, sure, same⟩ := Option.bind_eq_some_iff.1 parts
    cases same
    obtain ⟨rfl, plain⟩ := cut?_eq_some cut
    exact ⟨(List.isPrefixOf?_eq_some_iff_append_eq.1 whole).symm, plain, guard_eq_some.1 sure⟩
  · rintro ⟨whole, plain, sure⟩
    refine Option.bind_eq_some_iff.2 ⟨_, List.isPrefixOf?_eq_some_iff_append_eq.2 whole.symm, ?_⟩
    refine Option.bind_eq_some_iff.2 ⟨(q, slot), cut?_append slot plain, ?_⟩
    exact Option.bind_eq_some_iff.2 ⟨(), guard_eq_some.2 sure, rfl⟩

theorem claimParts?_claimStart (l : KeyLayout) (kind : PoolKind) {pool : String} {slot : List Char}
    (named : Named pool) (filled : slot ≠ []) (one : '/' ∉ slot) :
    l.claimParts? kind (l.claimStart kind pool ++ String.ofList slot) = some (pool.toList, slot) := by
  refine claimParts?_eq_some.2 ⟨?_, named.2, fun empty => ?_, filled, one⟩
  · rw [String.toList_append, claimStart_toList, String.toList_ofList]
    simp
  · exact named.1 (String.toList_eq_nil_iff.1 empty)

/-- A key below a pool is read as one of this pool, or not at all. -/
theorem claimParts?_pool {l : KeyLayout} {kind : PoolKind} {pool key : String}
    {q slot : List Char} (below : startsWith key (l.claimStart kind pool) = true)
    (parts : l.claimParts? kind key = some (q, slot)) :
    q = pool.toList ∧ Named pool ∧ key = l.claimStart kind pool ++ String.ofList slot := by
  obtain ⟨whole, plain, filled, _, one⟩ := claimParts?_eq_some.1 parts
  obtain ⟨more, text⟩ := startsWith_iff.1 below
  rw [claimStart_toList, whole, List.append_assoc, List.append_cancel_left_eq,
    List.append_assoc, List.singleton_append] at text
  obtain ⟨same, _⟩ := append_sep_inj text plain one
  rw [← same] at plain filled whole ⊢
  refine ⟨rfl, ⟨fun empty => filled (String.toList_eq_nil_iff.2 empty), plain⟩, ?_⟩
  apply String.toList_inj.1
  rw [whole, String.toList_append, claimStart_toList, String.toList_ofList]
  simp

/-! Range keys. -/

theorem rangeKey_parts (l : KeyLayout) {pool : String} (named : Named pool) (a : Address) (n : Nat) :
    l.claimParts? .range (l.rangeKey pool a n) =
      some (pool.toList, padded 10 a.toNat ++ '-' :: numeral n) := by
  apply claimParts?_claimStart l .range named
  · simp
  · intro mem
    rcases List.mem_append.1 mem with start | rest
    · exact absurd (isDigit_of_mem_padded start) (by decide)
    · rcases List.mem_cons.1 rest with slash | exponent
      · cases slash
      · exact absurd (isDigit_of_mem_numeral exponent) (by decide)

theorem parseRangeKey_rangeKey (l : KeyLayout) {pool : String} (named : Named pool) (a : Address)
    (n : Nat) : l.parseRangeKey (l.rangeKey pool a n) =
      (number? 256 (numeral n)).bind fun n => (block? a.toNat n).map (pool, ·) := by
  have plain : '-' ∉ padded 10 a.toNat := fun mem =>
    absurd (isDigit_of_mem_padded mem) (by decide)
  have start : number? UInt32.size (padded 10 a.toNat) = some a.toNat := number?_padded a.toNat_lt
  simp only [parseRangeKey, rangeKey_parts l named a n, cut?_append _ plain, start, bind,
    Option.bind_some, pure, String.ofList_toList]
  cases number? 256 (numeral n) with
  | none => rfl
  | some n =>
    rw [Option.bind_some, Option.bind_some, Option.map_eq_bind]
    rfl

theorem parseRangeKey_rangeKey_eq_some {l : KeyLayout} {pool q : String} {a : Address} {n : Nat}
    {r : AddressRange} : l.parseRangeKey (l.rangeKey pool a n) = some (q, r) ↔
      q = pool ∧ Named pool ∧ r.start = a ∧ r.size.toNat = 2 ^ n ∧ n ≤ 32 := by
  have below : startsWith (l.rangeKey pool a n) (l.claimStart .range pool) = true :=
    startsWith_append _ _
  have read (named : Named pool) (le : n ≤ 32) : l.parseRangeKey (l.rangeKey pool a n) =
      (block? a.toNat n).map (pool, ·) := by
    rw [parseRangeKey_rangeKey l named, number?_numeral (by omega), Option.bind_some]
  constructor
  · intro h
    have named : Named pool := by
      simp only [parseRangeKey, bind, Option.bind_eq_some_iff, Prod.exists] at h
      obtain ⟨_, _, parts, _⟩ := h
      exact (claimParts?_pool below parts).2.1
    have le : n ≤ 32 := by
      rw [parseRangeKey_rangeKey l named] at h
      obtain ⟨m, number, h⟩ := Option.bind_eq_some_iff.1 h
      obtain ⟨s, block, _⟩ := Option.map_eq_some_iff.1 h
      rw [number?_digits fun c mem => isDigit_of_mem_numeral mem, digits?_numeral] at number
      have same : n = m := (Option.filter_eq_some_iff.1 number).1 |> Option.some.inj
      exact same ▸ (block?_eq_some.1 block).2.2
    rw [read named le] at h
    obtain ⟨s, block, same⟩ := Option.map_eq_some_iff.1 h
    cases same
    exact ⟨rfl, named, block?_eq_some.1 block⟩
  · rintro ⟨rfl, named, block⟩
    rw [read named block.2.2, block?_eq_some.2 block]
    rfl

theorem rangeKeyFor_eq_some {l : KeyLayout} {pool key : String} {r : AddressRange} :
    l.rangeKeyFor pool r = some key ↔
      ∃ n, key = l.rangeKey pool r.start n ∧ r.size.toNat = 2 ^ n ∧ n ≤ 32 := by
  simp only [rangeKeyFor, Option.map_eq_some_iff, blockExponent_eq_some]
  constructor
  · rintro ⟨n, block, rfl⟩
    exact ⟨n, rfl, block⟩
  · rintro ⟨n, rfl, block⟩
    exact ⟨n, block, rfl⟩

theorem parseRangeKey_block {l : KeyLayout} {key q : String} {r : AddressRange}
    (read : l.parseRangeKey key = some (q, r)) : ∃ n, r.size.toNat = 2 ^ n ∧ n ≤ 32 := by
  simp only [parseRangeKey, bind, Option.bind_eq_some_iff, Prod.exists, pure] at read
  obtain ⟨_, _, _, _, _, _, a, start, n, _, s, block, same⟩ := read
  cases same
  have word : (UInt32.ofNat a).toNat = a := UInt32.toNat_ofNat_of_lt' (number?_lt start)
  rw [← word] at block
  exact ⟨n, (block?_eq_some.1 block).2⟩

theorem rangeKeyFor_parse {l : KeyLayout} {key q : String} {r : AddressRange}
    (read : l.parseRangeKey key = some (q, r)) (pool : String) :
    ∃ key, l.rangeKeyFor pool r = some key := by
  obtain ⟨n, size, le⟩ := parseRangeKey_block read
  exact ⟨_, rangeKeyFor_eq_some.2 ⟨n, rfl, size, le⟩⟩

theorem rangeKey_inj {l : KeyLayout} {pool : String} {a b : Address} {m n : Nat}
    (same : l.rangeKey pool a m = l.rangeKey pool b n) : a = b ∧ m = n := by
  have text := congrArg String.toList same
  rw [rangeKey, rangeKey, String.toList_append, String.toList_append, List.append_cancel_left_eq,
    String.toList_ofList, String.toList_ofList] at text
  have plain (a : Address) : '-' ∉ padded 10 a.toNat := fun mem =>
    absurd (isDigit_of_mem_padded mem) (by decide)
  have last (n : Nat) : '-' ∉ numeral n := fun mem => absurd (isDigit_of_mem_numeral mem) (by decide)
  obtain ⟨start, exponent⟩ := append_sep_inj text (plain b) (last n)
  exact ⟨UInt32.toNat_inj.1 (padded_inj start), numeral_inj exponent⟩

/-- Ranges have keys of their own. -/
theorem rangeKeyFor_inj {l : KeyLayout} {pool key : String} {q r : AddressRange}
    (hq : l.rangeKeyFor pool q = some key) (hr : l.rangeKeyFor pool r = some key) : q = r := by
  obtain ⟨m, rfl, sizeQ, _⟩ := rangeKeyFor_eq_some.1 hq
  obtain ⟨n, same, sizeR, _⟩ := rangeKeyFor_eq_some.1 hr
  obtain ⟨start, rfl⟩ := rangeKey_inj same
  exact AddressRange.eq_of_start_size start (sizeQ.trans sizeR.symm)

/-! Subnet keys. -/

theorem slot_plain (s : Subnet) : '/' ∉ s.network.chars ++ '-' :: numeral s.length := by
  intro mem
  rcases List.mem_append.1 mem with start | rest
  · exact Address.not_mem_chars (by decide) (by decide) start
  · rcases List.mem_cons.1 rest with slash | length
    · cases slash
    · exact absurd (isDigit_of_mem_numeral length) (by decide)

theorem parseSubnetKey_subnetKey_eq_some {l : KeyLayout} {pool q : String} {s t : Subnet} :
    l.parseSubnetKey (l.subnetKey pool s) = some (q, t) ↔ q = pool ∧ Named pool ∧ t = s := by
  have below : startsWith (l.subnetKey pool s) (l.claimStart .subnet pool) = true :=
    startsWith_append _ _
  have read (named : Named pool) : l.parseSubnetKey (l.subnetKey pool s) = some (pool, s) := by
    have parts : l.claimParts? .subnet (l.subnetKey pool s) =
        some (pool.toList, s.network.chars ++ '-' :: numeral s.length) :=
      claimParts?_claimStart l .subnet named (by simp) (slot_plain s)
    have last : '-' ∉ numeral s.length := fun mem =>
      absurd (isDigit_of_mem_numeral mem) (by decide)
    have length : number? 256 (numeral s.length) = some s.length :=
      number?_numeral (Nat.lt_of_le_of_lt s.length_le (by decide))
    simp only [parseSubnetKey, parts, cutLast?_append _ last, Address.trim_chars, Address.ofChars?_chars,
      length, Subnet.make_self, bind, Option.bind_some, pure, Except.toOption, String.ofList_toList]
  constructor
  · intro h
    have named : Named pool := by
      simp only [parseSubnetKey, bind, Option.bind_eq_some_iff, Prod.exists] at h
      obtain ⟨_, _, parts, _⟩ := h
      exact (claimParts?_pool below parts).2.1
    rw [read named] at h
    cases h
    exact ⟨rfl, named, rfl⟩
  · rintro ⟨rfl, named, rfl⟩
    exact read named

/-- Subnets have keys of their own. -/
theorem subnetKey_inj {l : KeyLayout} {pool : String} {s t : Subnet}
    (same : l.subnetKey pool s = l.subnetKey pool t) : s = t := by
  have text := congrArg String.toList same
  rw [subnetKey, subnetKey, String.toList_append, String.toList_append, List.append_cancel_left_eq,
    String.toList_ofList, String.toList_ofList] at text
  have last (n : Nat) : '-' ∉ numeral n := fun mem => absurd (isDigit_of_mem_numeral mem) (by decide)
  have plain (a : Address) : '-' ∉ a.chars := Address.not_mem_chars (by decide) (by decide)
  obtain ⟨network, length⟩ := append_sep_inj text (plain _) (last _)
  have address := congrArg Address.ofChars? network
  rw [Address.ofChars?_chars, Address.ofChars?_chars] at address
  exact Subnet.ext (Option.some.inj address) (numeral_inj length)

/-! Keys of single addresses. -/

theorem parseFixedKey_fixedKey_eq_some {l : KeyLayout} {pool q : String} {a b : Address} :
    l.parseFixedKey (l.fixedKey pool a) = some (q, b) ↔ q = pool ∧ Named pool ∧ b = a := by
  have below : startsWith (l.fixedKey pool a) (l.claimStart .fixed pool) = true :=
    startsWith_append _ _
  have read (named : Named pool) : l.parseFixedKey (l.fixedKey pool a) = some (pool, a) := by
    have parts : l.claimParts? .fixed (l.fixedKey pool a) = some (pool.toList, padded 10 a.toNat) :=
      claimParts?_claimStart l .fixed named (padded_ne_nil 10 _) fun mem =>
        absurd (isDigit_of_mem_padded mem) (by decide)
    have address : number? UInt32.size (padded 10 a.toNat) = some a.toNat := number?_padded a.toNat_lt
    simp only [parseFixedKey, parts, address, bind, Option.bind_some, pure, String.ofList_toList,
      UInt32.ofNat_toNat]
  constructor
  · intro h
    have named : Named pool := by
      simp only [parseFixedKey, bind, Option.bind_eq_some_iff, Prod.exists] at h
      obtain ⟨_, _, parts, _⟩ := h
      exact (claimParts?_pool below parts).2.1
    rw [read named] at h
    cases h
    exact ⟨rfl, named, rfl⟩
  · rintro ⟨rfl, named, rfl⟩
    exact read named

/-- Addresses have keys of their own. -/
theorem fixedKey_inj {l : KeyLayout} {pool : String} {a b : Address}
    (same : l.fixedKey pool a = l.fixedKey pool b) : a = b := by
  have text := congrArg String.toList same
  rw [fixedKey, fixedKey, String.toList_append, String.toList_append, List.append_cancel_left_eq,
    String.toList_ofList, String.toList_ofList] at text
  exact UInt32.toNat_inj.1 (padded_inj text)

/-! Keys of endpoints. -/

theorem parseEndpointKey_eq_some {l : KeyLayout} {key device : String} {a : Address}
    (read : l.parseEndpointKey key = some (device, a)) : ∃ slot, '/' ∉ slot ∧ '/' ∉ device.toList ∧
      key.toList = l.endpointStart.toList ++ (device.toList ++ '/' :: slot) := by
  simp only [parseEndpointKey, bind, Option.bind_eq_some_iff, Prod.exists, pure] at read
  obtain ⟨rest, whole, d, slot, cut, _, _, b, address, same⟩ := read
  cases same
  obtain ⟨rfl, plain⟩ := cut?_eq_some cut
  have last : '/' ∉ slot := (Address.read_trimmed.1 address).not_mem
    (Address.not_mem_chars (by decide) (by decide)) (by decide)
  refine ⟨slot, last, by rwa [String.toList_ofList], ?_⟩
  rw [String.toList_ofList]
  exact (List.isPrefixOf?_eq_some_iff_append_eq.1 whole).symm

theorem parseEndpointKey_start {l : KeyLayout} {key device : String} {a : Address}
    (read : l.parseEndpointKey key = some (device, a)) : startsWith key l.endpointStart = true := by
  obtain ⟨slot, _, _, whole⟩ := parseEndpointKey_eq_some read
  rw [startsWith_iff, whole]
  exact List.prefix_append _ _

/-- An endpoint stands below its own device and no other. -/
theorem parseEndpointKey_device {l : KeyLayout} {key d : String} {a : Address}
    (read : l.parseEndpointKey key = some (d, a)) (device : String) :
    startsWith key (l.deviceStart device) = true ↔ d = device := by
  obtain ⟨slot, last, plain, whole⟩ := parseEndpointKey_eq_some read
  have start : (l.deviceStart device).toList = l.endpointStart.toList ++ (device.toList ++ ['/']) := by
    simp [deviceStart]
  rw [startsWith_iff, whole, start, List.prefix_append_right_inj]
  constructor
  · rintro ⟨more, text⟩
    rw [List.append_assoc, List.singleton_append] at text
    exact (String.toList_inj.1 (append_sep_inj text plain last).1).symm
  · rintro rfl
    exact ⟨slot, by simp⟩

/-- Addresses have keys of their own below each device. -/
theorem endpointKey_inj {l : KeyLayout} {d e : String} {a b : Address} (plain : '/' ∉ e.toList)
    (same : l.endpointKey d a = l.endpointKey e b) : d = e ∧ a = b := by
  have text := congrArg String.toList same
  simp only [endpointKey, deviceStart, String.toList_append, Address.text, String.toList_ofList,
    List.append_assoc, List.append_cancel_left_eq] at text
  have last : '/' ∉ b.chars := Address.not_mem_chars (by decide) (by decide)
  obtain ⟨device, address⟩ := append_sep_inj text plain last
  have read : Address.ofChars? a.chars = Address.ofChars? b.chars := congrArg Address.ofChars? address
  rw [Address.ofChars?_chars, Address.ofChars?_chars] at read
  exact ⟨String.toList_inj.1 device, Option.some.inj read⟩

end KeyLayout

end NetPool
