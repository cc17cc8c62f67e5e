import NetPool.Proofs.Slots

/-! How a slot may be written in a key. The builders write it in one way, the readers take more: zeros
and a plus sign before a number, blanks around an address, an address within a subnet for its network.
So a slot has many keys, of which one is built. -/

namespace NetPool

open Text

theorem Block.range_inj {b c : Block} (same : b.range = c.range) : b = c := by
  have start : b.start = c.start := congrArg AddressRange.start same
  have size : 2 ^ b.exponent = 2 ^ c.exponent := by rw [← b.range_size, same, c.range_size]
  cases b
  cases c
  cases start
  cases (Nat.pow_right_inj Nat.one_lt_two).1 size
  rfl

namespace Slot

/-- The ways in which a slot may stand in a key. -/
inductive Spelled : Slot → List Char → Prop
  | block {b : Block} {start exponent : List Char} (first : Spells b.start.toNat start)
      (size : Spells b.exponent exponent) : Spelled (.block b) (start ++ '-' :: exponent)
  | subnet {s : Subnet} {a : Address} {address length : List Char} (within : a &&& mask s.length = s.network)
      (dotted : Blanked a.chars address) (size : Spells s.length length) :
      Spelled (.subnet s) (address ++ '-' :: length)
  | fixed {a : Address} {number : List Char} (first : Spells a.toNat number) : Spelled (.fixed a) number
  | endpoint {a : Address} {address : List Char} (dotted : Blanked a.chars address) :
      Spelled (.endpoint a) address

variable {s : Slot} {t : List Char}

theorem spelled_chars (s : Slot) : s.Spelled s.chars := by
  cases s with
  | block b => exact .block (spells_padded 10 _) (spells_numeral _)
  | subnet s => exact .subnet s.canonical (.self _) (spells_numeral _)
  | fixed a => exact .fixed (spells_padded 10 _)
  | endpoint a => exact .endpoint (.self _)

/-- None of the slots is written in one way alone. -/
theorem spelled_otherwise (s : Slot) : ∃ c, s.Spelled (c :: s.chars) := by
  have blank (a : Address) : Blanked a.chars (' ' :: a.chars) :=
    ⟨[' '], [], by simp, List.forall_mem_singleton.2 (by decide), nofun⟩
  cases s with
  | block b => exact ⟨'+', .block ⟨10, .inr rfl⟩ (spells_numeral _)⟩
  | subnet s => exact ⟨' ', .subnet s.canonical (blank _) (spells_numeral _)⟩
  | fixed a => exact ⟨'+', .fixed ⟨10, .inr rfl⟩⟩
  | endpoint a => exact ⟨' ', .endpoint (blank a)⟩

theorem Spelled.filled (spelled : s.Spelled t) : t ≠ [] := by
  cases spelled with
  | block | subnet => simp
  | fixed first => exact first.filled
  | endpoint dotted => exact dotted.filled (Address.chars_ne_nil _)

theorem Spelled.plain (spelled : s.Spelled t) : '/' ∉ t := by
  have number {n : Nat} {u : List Char} (spells : Spells n u) : '/' ∉ u :=
    spells.not_mem (by decide) (by decide)
  have address {a : Address} {u : List Char} (dotted : Blanked a.chars u) : '/' ∉ u :=
    dotted.not_mem (Address.not_mem_chars (by decide) (by decide)) (by decide)
  cases spelled with
  | block first size => simp [number first, number size]
  | subnet _ dotted size => simp [address dotted, number size]
  | fixed first => exact number first
  | endpoint dotted => exact address dotted

end Slot

namespace KeyLayout

/-- A key with some text for the slot. -/
def keyOf (l : KeyLayout) (kind : Option PoolKind) (name : String) (slot : List Char) : String :=
  l.rootStart ++ directoryOf kind ++ "/" ++ name ++ "/" ++ String.ofList slot

/-- The reader of its kind takes a key for one of this name and slot. -/
def Reads (l : KeyLayout) (key name : String) : Slot → Prop
  | .block b => l.parseRangeKey key = some (name, b.range)
  | .subnet s => l.parseSubnetKey key = some (name, s)
  | .fixed a => l.parseFixedKey key = some (name, a)
  | .endpoint a => l.parseEndpointKey key = some (name, a)

variable {l : KeyLayout} {key name : String} {s : Slot} {t u : List Char}

theorem keyOf_toList (l : KeyLayout) (kind : Option PoolKind) (name : String) (slot : List Char) :
    (l.keyOf kind name slot).toList = l.rootStart.toList ++
      ((directoryOf kind).toList ++ '/' :: (name.toList ++ '/' :: slot)) := by
  simp [keyOf]

theorem slotKey_eq (l : KeyLayout) (name : String) (s : Slot) : l.slotKey name s = l.keyOf s.kind name s.chars :=
  String.toList_inj.1 ((l.slotKey_toList name s).trans (l.keyOf_toList s.kind name s.chars).symm)

theorem slotKey_eq_keyOf {name : String} : l.slotKey name s = l.keyOf s.kind name t ↔ t = s.chars := by
  constructor
  · intro same
    have text := congrArg String.toList (same.symm.trans (l.slotKey_eq name s))
    simpa [keyOf_toList] using text
  · rintro rfl
    exact l.slotKey_eq name s

theorem claimParts?_iff {kind : PoolKind} {q slot : List Char} : l.claimParts? kind key = some (q, slot) ↔
    key = l.keyOf (some kind) (String.ofList q) slot ∧ Named (String.ofList q) ∧ slot ≠ [] ∧ '/' ∉ slot := by
  have filled : String.ofList q ≠ "" ↔ q ≠ [] := not_congr (by
    rw [← String.toList_inj, String.toList_ofList]
    rfl)
  rw [claimParts?_eq_some, ← String.toList_inj, keyOf_toList, kindStart_toList, Named, filled,
    String.toList_ofList]
  simp only [List.append_assoc, List.singleton_append]
  tauto

theorem claimParts?_keyOf (l : KeyLayout) (kind : PoolKind) (named : Named name) (spelled : s.Spelled t) :
    l.claimParts? kind (l.keyOf (some kind) name t) = some (name.toList, t) := by
  refine claimParts?_iff.2 ⟨?_, ?_, spelled.filled, spelled.plain⟩
  · rw [String.ofList_toList]
  · rwa [String.ofList_toList]

theorem parseRangeKey_iff {b : Block} : l.parseRangeKey key = some (name, b.range) ↔
    Named name ∧ ∃ t, (Slot.block b).Spelled t ∧ key = l.keyOf (some .range) name t := by
  have word {n : Nat} (lt : n < UInt32.size) : (UInt32.ofNat n).toNat = n := UInt32.toNat_ofNat_of_lt' lt
  constructor
  · intro read
    simp only [parseRangeKey, bind, Option.bind_eq_some_iff, Prod.exists, pure] at read
    obtain ⟨q, slot, parts, start, exponent, cut, n, first, m, size, r, block, same⟩ := read
    cases same
    obtain ⟨rfl, _⟩ := cut?_eq_some cut
    obtain ⟨rfl, named, _⟩ := claimParts?_iff.1 parts
    obtain ⟨first, lt⟩ := number?_eq_some.1 first
    obtain ⟨size, _⟩ := number?_eq_some.1 size
    rw [← word lt] at block first
    obtain ⟨begins, length, _⟩ := block?_eq_some.1 block
    rw [← begins] at first
    rw [b.range_size] at length
    cases (Nat.pow_right_inj Nat.one_lt_two).1 length
    exact ⟨named, _, .block first size, rfl⟩
  · rintro ⟨named, _, spelled, rfl⟩
    have parts := claimParts?_keyOf l .range named spelled
    cases spelled with | @block _ start exponent first size =>
    have le := b.exponent_le
    have cut : cut? '-' (start ++ '-' :: exponent) = some (start, exponent) :=
      cut?_append exponent (first.not_mem (by decide) (by decide))
    have begins : number? UInt32.size start = some b.start.toNat := number?_eq_some.2 ⟨first, b.start.toNat_lt⟩
    have holds : number? 256 exponent = some b.exponent := number?_eq_some.2 ⟨size, by omega⟩
    have block : block? b.start.toNat b.exponent = some b.range := block?_eq_some.2 ⟨rfl, b.range_size, le⟩
    simp only [parseRangeKey, parts, cut, begins, holds, block, bind, Option.bind_some, pure,
      String.ofList_toList]

theorem parseSubnetKey_iff {s : Subnet} : l.parseSubnetKey key = some (name, s) ↔
    Named name ∧ ∃ t, (Slot.subnet s).Spelled t ∧ key = l.keyOf (some .subnet) name t := by
  constructor
  · intro read
    simp only [parseSubnetKey, bind, Option.bind_eq_some_iff, Prod.exists, pure] at read
    obtain ⟨q, slot, parts, address, length, cut, a, dotted, n, size, _, made, same⟩ := read
    cases same
    obtain rfl := cutLast?_eq_some cut
    obtain ⟨rfl, named, _⟩ := claimParts?_iff.1 parts
    obtain ⟨size, _⟩ := number?_eq_some.1 size
    obtain ⟨within, rfl⟩ := Subnet.make_iff.1 made
    exact ⟨named, _, .subnet within (Address.read_trimmed.1 dotted) size, rfl⟩
  · rintro ⟨named, _, spelled, rfl⟩
    have parts := claimParts?_keyOf l .subnet named spelled
    cases spelled with | @subnet _ a address length within dotted size =>
    have le := s.length_le
    have cut : cutLast? '-' (address ++ '-' :: length) = some (address, length) :=
      cutLast?_append address (size.not_mem (by decide) (by decide))
    have holds : number? 256 length = some s.length := number?_eq_some.2 ⟨size, by omega⟩
    have made : (Subnet.make a s.length).toOption = some s := Subnet.make_iff.2 ⟨within, rfl⟩
    simp only [parseSubnetKey, parts, cut, Address.read_trimmed.2 dotted, holds, made, bind, Option.bind_some,
      pure, String.ofList_toList]

theorem parseFixedKey_iff {a : Address} : l.parseFixedKey key = some (name, a) ↔
    Named name ∧ ∃ t, (Slot.fixed a).Spelled t ∧ key = l.keyOf (some .fixed) name t := by
  constructor
  · intro read
    simp only [parseFixedKey, bind, Option.bind_eq_some_iff, Prod.exists, pure] at read
    obtain ⟨q, slot, parts, n, first, same⟩ := read
    cases same
    obtain ⟨rfl, named, _⟩ := claimParts?_iff.1 parts
    obtain ⟨first, lt⟩ := number?_eq_some.1 first
    rw [← UInt32.toNat_ofNat_of_lt' lt] at first
    exact ⟨named, _, .fixed first, rfl⟩
  · rintro ⟨named, t, spelled, rfl⟩
    have parts := claimParts?_keyOf l .fixed named spelled
    cases spelled with | fixed first =>
    have number : number? UInt32.size t = some a.toNat := number?_eq_some.2 ⟨first, a.toNat_lt⟩
    simp only [parseFixedKey, parts, number, bind, Option.bind_some, pure, String.ofList_toList,
      UInt32.ofNat_toNat]

theorem parseEndpointKey_iff {a : Address} : l.parseEndpointKey key = some (name, a) ↔
    Named name ∧ ∃ t, (Slot.endpoint a).Spelled t ∧ key = l.keyOf none name t := by
  constructor
  · intro read
    simp only [parseEndpointKey, bind, Option.bind_eq_some_iff, Prod.exists, pure] at read
    obtain ⟨rest, whole, device, t, cut, _, filled, b, dotted, same⟩ := read
    cases same
    obtain ⟨rfl, plain⟩ := cut?_eq_some cut
    have text := List.isPrefixOf?_eq_some_iff_append_eq.1 whole
    refine ⟨⟨fun empty => guard_eq_some.1 filled ?_, by rwa [String.toList_ofList]⟩, t,
      .endpoint (Address.read_trimmed.1 dotted), String.toList_inj.1 ?_⟩
    · rw [← String.toList_ofList (l := device), empty]
      rfl
    · rw [← text, keyOf_toList, endpointStart_toList, String.toList_ofList]
      simp
  · rintro ⟨named, t, spelled, rfl⟩
    cases spelled with | endpoint dotted =>
    have rest : l.endpointStart.toList.isPrefixOf? (l.keyOf none name t).toList =
        some (name.toList ++ '/' :: t) := by
      rw [List.isPrefixOf?_eq_some_iff_append_eq, keyOf_toList, endpointStart_toList]
      simp
    have filled : name.toList ≠ [] := fun empty => named.1 (String.toList_eq_nil_iff.1 empty)
    simp only [parseEndpointKey, rest, cut?_append _ named.2, guard, if_pos filled,
      Address.read_trimmed.2 dotted, bind, Option.bind_some, pure, String.ofList_toList]

/-- A key is read as that of a name and a slot exactly if it is spelled so. -/
theorem reads_iff : l.Reads key name s ↔ Named name ∧ ∃ t, s.Spelled t ∧ key = l.keyOf s.kind name t := by
  cases s with
  | block b => exact parseRangeKey_iff
  | subnet s => exact parseSubnetKey_iff
  | fixed a => exact parseFixedKey_iff
  | endpoint a => exact parseEndpointKey_iff

/-- Every range that is read is that of a block. -/
theorem block_of_parse {r : AddressRange} (read : l.parseRangeKey key = some (name, r)) :
    ∃ b : Block, r = b.range := by
  obtain ⟨n, size, _⟩ := parseRangeKey_block read
  have ordered := r.start_le
  have stop := r.stop.toNat_lt
  rw [r.size_toNat] at size
  exact ⟨⟨r.start, n, by omega⟩, AddressRange.eq_of_start_size rfl (by
    rw [Block.range_size, r.size_toNat, size])⟩

theorem reads_slotKey (named : Named name) : l.Reads (l.slotKey name s) name s :=
  reads_iff.2 ⟨named, s.chars, s.spelled_chars, l.slotKey_eq name s⟩

/-- A key is read in one way. -/
theorem Reads.eq {other : String} {o : Slot} (first : l.Reads key name s) (second : l.Reads key other o) :
    name = other ∧ s = o := by
  obtain ⟨named, t, _, whole⟩ := reads_iff.1 first
  obtain ⟨_, u, _, same⟩ := reads_iff.1 second
  have text := congrArg String.toList (whole.symm.trans same)
  rw [keyOf_toList, keyOf_toList, List.append_cancel_left_eq] at text
  have cuts := congrArg (cut? '/') text
  rw [cut?_append _ (plain_directoryOf _), cut?_append _ (plain_directoryOf _)] at cuts
  have kind := directoryOf_inj (Prod.mk.inj (Option.some.inj cuts)).1
  cases s <;> cases o <;> cases kind
  case block.block.refl =>
    obtain ⟨rfl, range⟩ := Prod.mk.inj (Option.some.inj (first.symm.trans second))
    exact ⟨rfl, congrArg Slot.block (Block.range_inj range)⟩
  all_goals
    cases Option.some.inj (first.symm.trans second)
    exact ⟨rfl, rfl⟩

/-- A name and a slot have other keys too, beside the one that is built. -/
theorem reads_otherwise (named : Named name) (s : Slot) :
    ∃ key, key ≠ l.slotKey name s ∧ l.Reads key name s := by
  obtain ⟨c, spelled⟩ := s.spelled_otherwise
  refine ⟨_, fun same => ?_, reads_iff.2 ⟨named, _, spelled, rfl⟩⟩
  have longer := congrArg List.length (slotKey_eq_keyOf.1 same.symm)
  simp at longer

end KeyLayout

end NetPool
