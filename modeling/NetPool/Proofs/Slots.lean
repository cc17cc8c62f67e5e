import NetPool.Proofs.Keys

/-! The records of all kinds beside each other. A key tells its kind, its pool or device and its slot: its
own reader gives them back, the readers of the other kinds refuse it, and of all claim prefixes it stands
below that of its own pool alone. -/

namespace NetPool

open Text

/-- So many addresses as a power of two, within the space. -/
structure Block where
  start : Address
  exponent : Nat
  within : start.toNat + 2 ^ exponent ≤ 2 ^ 32
deriving DecidableEq

namespace Block

variable (b : Block)

theorem exponent_le : b.exponent ≤ 32 := by
  have within := b.within
  exact (Nat.pow_le_pow_iff_right (by decide)).1 (Nat.le_of_add_left_le within)

theorem stop_toNat : (UInt32.ofNat (b.start.toNat + 2 ^ b.exponent - 1)).toNat =
    b.start.toNat + 2 ^ b.exponent - 1 := by
  have within := b.within
  have pos := Nat.two_pow_pos b.exponent
  have word : UInt32.size = 2 ^ 32 := rfl
  exact UInt32.toNat_ofNat_of_lt' (by omega)

def range : AddressRange where
  start := b.start
  stop := UInt32.ofNat (b.start.toNat + 2 ^ b.exponent - 1)
  ordered := by
    have pos := Nat.two_pow_pos b.exponent
    rw [UInt32.le_iff_toNat_le, b.stop_toNat]
    omega

theorem range_size : b.range.size.toNat = 2 ^ b.exponent := by
  have pos := Nat.two_pow_pos b.exponent
  rw [AddressRange.size_toNat]
  change (UInt32.ofNat _).toNat - b.start.toNat + 1 = _
  rw [b.stop_toNat]
  omega

def whole : Block := ⟨0, 32, by decide⟩

end Block

/-- The directory of the claims of a kind of pools, or else of the endpoints. -/
def directoryOf : Option PoolKind → String
  | some kind => kind.directory
  | none => "vxlan"

theorem plain_directoryOf (kind : Option PoolKind) : '/' ∉ (directoryOf kind).toList := by
  rcases kind with _ | _ | _ | _ <;> decide

theorem directoryOf_inj {k j : Option PoolKind}
    (same : (directoryOf k).toList = (directoryOf j).toList) : k = j := by
  rcases k with _ | _ | _ | _ <;> rcases j with _ | _ | _ | _ <;> revert same <;> decide

/-- What a record is about, besides its pool or device. -/
inductive Slot
  | block (b : Block)
  | subnet (s : Subnet)
  | fixed (a : Address)
  | endpoint (a : Address)
deriving DecidableEq

namespace Slot

/-- The kind of pools whose claims take such slots, unless they are endpoints. -/
def kind : Slot → Option PoolKind
  | .block _ => some .range
  | .subnet _ => some .subnet
  | .fixed _ => some .fixed
  | .endpoint _ => none

def range? : Slot → Option AddressRange
  | .block b => some b.range
  | _ => none

def subnet? : Slot → Option Subnet
  | .subnet s => some s
  | _ => none

def fixed? : Slot → Option Address
  | .fixed a => some a
  | _ => none

def endpoint? : Slot → Option Address
  | .endpoint a => some a
  | _ => none

/-- What stands in a key after the pool or device. -/
def chars : Slot → List Char
  | .block b => padded 10 b.start.toNat ++ '-' :: numeral b.exponent
  | .subnet s => s.network.chars ++ '-' :: numeral s.length
  | .fixed a => padded 10 a.toNat
  | .endpoint a => a.chars

end Slot

namespace KeyLayout

variable (l : KeyLayout)

def slotKey (name : String) : Slot → String
  | .block b => l.rangeKey name b.start b.exponent
  | .subnet s => l.subnetKey name s
  | .fixed a => l.fixedKey name a
  | .endpoint a => l.endpointKey name a

theorem kindStart_toList (kind : PoolKind) : (l.kindStart kind).toList =
    l.rootStart.toList ++ ((directoryOf (some kind)).toList ++ ['/']) := by
  simp [kindStart, rootStart, directoryOf]

theorem endpointStart_toList :
    l.endpointStart.toList = l.rootStart.toList ++ ((directoryOf none).toList ++ ['/']) := by
  simp [endpointStart, rootStart, directoryOf]

theorem slotKey_toList (name : String) (s : Slot) : (l.slotKey name s).toList = l.rootStart.toList ++
    ((directoryOf s.kind).toList ++ '/' :: (name.toList ++ '/' :: s.chars)) := by
  cases s with
  | block | subnet | fixed =>
    simp [slotKey, rangeKey, subnetKey, fixedKey, claimStart_toList, kindStart_toList, Slot.kind, Slot.chars]
  | endpoint =>
    simp [slotKey, endpointKey, deviceStart, endpointStart_toList, Slot.kind, Slot.chars, Address.text]

variable {l} {a b : String} {s t : Slot}

/-- Which directory a key stands in, and what follows. -/
theorem slotKey_below {kind : Option PoolKind} {more : List Char}
    (text : (l.slotKey a s).toList = l.rootStart.toList ++ ((directoryOf kind).toList ++ '/' :: more)) :
    s.kind = kind ∧ a.toList ++ '/' :: s.chars = more := by
  have cuts := congrArg (cut? '/') (List.append_cancel_left ((l.slotKey_toList a s).symm.trans text))
  rw [cut?_append _ (plain_directoryOf _), cut?_append _ (plain_directoryOf _)] at cuts
  obtain ⟨directory, rest⟩ := Prod.mk.inj (Option.some.inj cuts)
  exact ⟨directoryOf_inj directory, rest⟩

/-- A name ends where the first separator after it stands. -/
theorem name_inj {more rest : List Char} (plainA : '/' ∉ a.toList) (plainB : '/' ∉ b.toList)
    (same : a.toList ++ '/' :: more = b.toList ++ '/' :: rest) : a = b := by
  have cuts := congrArg (cut? '/') same
  rw [cut?_append _ plainA, cut?_append _ plainB] at cuts
  exact String.toList_inj.1 (Prod.mk.inj (Option.some.inj cuts)).1

theorem claimParts?_slotKey {kind : PoolKind} (other : s.kind ≠ some kind) :
    l.claimParts? kind (l.slotKey a s) = none := by
  by_contra found
  obtain ⟨⟨q, slot⟩, parts⟩ := Option.ne_none_iff_exists'.1 found
  obtain ⟨whole, _⟩ := claimParts?_eq_some.1 parts
  rw [kindStart_toList, List.append_assoc, List.append_assoc, List.singleton_append] at whole
  exact other (slotKey_below whole).1

theorem parseRangeKey_slotKey (named : Named a) :
    l.parseRangeKey (l.slotKey a s) = s.range?.map (a, ·) := by
  cases s with
  | block b =>
    exact parseRangeKey_rangeKey_eq_some.2 ⟨rfl, named, rfl, b.range_size, b.exponent_le⟩
  | subnet | fixed | endpoint =>
    rw [parseRangeKey, claimParts?_slotKey (by simp [Slot.kind])]
    rfl

theorem parseSubnetKey_slotKey (named : Named a) :
    l.parseSubnetKey (l.slotKey a s) = s.subnet?.map (a, ·) := by
  cases s with
  | subnet => exact parseSubnetKey_subnetKey_eq_some.2 ⟨rfl, named, rfl⟩
  | block | fixed | endpoint =>
    rw [parseSubnetKey, claimParts?_slotKey (by simp [Slot.kind])]
    rfl

theorem parseFixedKey_slotKey (named : Named a) :
    l.parseFixedKey (l.slotKey a s) = s.fixed?.map (a, ·) := by
  cases s with
  | fixed => exact parseFixedKey_fixedKey_eq_some.2 ⟨rfl, named, rfl⟩
  | block | subnet | endpoint =>
    rw [parseFixedKey, claimParts?_slotKey (by simp [Slot.kind])]
    rfl

theorem parseEndpointKey_endpointKey {device : String} (named : Named device) (address : Address) :
    l.parseEndpointKey (l.endpointKey device address) = some (device, address) := by
  have rest : l.endpointStart.toList.isPrefixOf? (l.endpointKey device address).toList =
      some (device.toList ++ '/' :: address.chars) :=
    List.isPrefixOf?_eq_some_iff_append_eq.2 (by simp [endpointKey, deviceStart, Address.text])
  have filled : device.toList ≠ [] := fun empty => named.1 (String.toList_eq_nil_iff.1 empty)
  simp only [parseEndpointKey, rest, cut?_append _ named.2, guard, if_pos filled, Address.trim_chars,
    Address.ofChars?_chars, bind, Option.bind_some, pure, String.ofList_toList]

theorem parseEndpointKey_slotKey (named : Named a) :
    l.parseEndpointKey (l.slotKey a s) = s.endpoint?.map (a, ·) := by
  cases s with
  | endpoint address => exact parseEndpointKey_endpointKey named address
  | block | subnet | fixed =>
    apply Option.eq_none_iff_forall_ne_some.2
    rintro ⟨device, address⟩ read
    obtain ⟨slot, _, _, whole⟩ := parseEndpointKey_eq_some read
    rw [endpointStart_toList, List.append_assoc, List.append_assoc, List.singleton_append] at whole
    cases (slotKey_below whole).1

theorem slotKey_inj (plainA : '/' ∉ a.toList) (plainB : '/' ∉ b.toList)
    (same : l.slotKey a s = l.slotKey b t) : a = b ∧ s = t := by
  obtain ⟨kind, names⟩ := slotKey_below ((congrArg String.toList same).trans (l.slotKey_toList b t))
  cases name_inj plainA plainB names
  refine ⟨rfl, ?_⟩
  cases s <;> cases t <;> cases kind
  case block.block.refl b c =>
    obtain ⟨start, exponent⟩ := rangeKey_inj same
    obtain ⟨_, _, _⟩ := b
    cases start
    cases exponent
    rfl
  case subnet.subnet.refl => rw [subnetKey_inj same]
  case fixed.fixed.refl => rw [fixedKey_inj same]
  case endpoint.endpoint.refl => rw [(endpointKey_inj plainA same).2]

theorem startsWith_slotKey (plainA : '/' ∉ a.toList) (plainB : '/' ∉ b.toList) {kind : PoolKind} :
    startsWith (l.slotKey a s) (l.claimStart kind b) = true ↔ s.kind = some kind ∧ a = b := by
  constructor
  · intro below
    obtain ⟨more, text⟩ := startsWith_iff.1 below
    rw [claimStart_toList, kindStart_toList, List.append_assoc, List.append_assoc, List.append_assoc,
      List.append_assoc, List.singleton_append, List.singleton_append] at text
    obtain ⟨own, names⟩ := slotKey_below text.symm
    exact ⟨own, name_inj plainA plainB names⟩
  · rintro ⟨own, rfl⟩
    cases s <;> cases own <;> exact startsWith_append _ _

/-- Whatever the root and the names: a key is read back by the reader of its own kind alone, two keys are
equal only if kind, name and slot are, and a key stands below the claims of its own pool alone. -/
theorem keys_tell_slots (l : KeyLayout) {a b : String} (namedA : Named a) (namedB : Named b) (s t : Slot) :
    (l.parseRangeKey (l.slotKey a s) = s.range?.map (a, ·) ∧
      l.parseSubnetKey (l.slotKey a s) = s.subnet?.map (a, ·) ∧
      l.parseFixedKey (l.slotKey a s) = s.fixed?.map (a, ·) ∧
      l.parseEndpointKey (l.slotKey a s) = s.endpoint?.map (a, ·)) ∧
    (l.slotKey a s = l.slotKey b t ↔ a = b ∧ s = t) ∧
    ∀ kind, startsWith (l.slotKey a s) (l.claimStart kind b) = true ↔ s.kind = some kind ∧ a = b := by
  refine ⟨⟨parseRangeKey_slotKey namedA, parseSubnetKey_slotKey namedA, parseFixedKey_slotKey namedA,
    parseEndpointKey_slotKey namedA⟩, ⟨slotKey_inj namedA.2 namedB.2, ?_⟩,
    fun kind => startsWith_slotKey namedA.2 namedB.2⟩
  rintro ⟨rfl, rfl⟩
  rfl

/-- Names that look like parts of other keys, and the block that is the whole space. -/
theorem whole_space_told : Named "blue-4" ∧ Named "blue" ∧
    standard.parseRangeKey (standard.slotKey "blue-4" (.block .whole)) =
      some ("blue-4", Block.whole.range) ∧
    standard.slotKey "blue-4" (.block .whole) ≠ standard.slotKey "blue" (.fixed 4) ∧
    ¬ startsWith (standard.slotKey "blue-4" (.block .whole)) (standard.claimStart .range "blue") = true := by
  have named : Named "blue-4" := ⟨by decide, by decide⟩
  have other : Named "blue" := ⟨by decide, by decide⟩
  obtain ⟨⟨read, _⟩, same, below⟩ := keys_tell_slots standard named other (.block .whole) (.fixed 4)
  refine ⟨named, other, read, fun eq => ?_, fun starts => ?_⟩
  · exact absurd (same.1 eq).1 (by decide)
  · exact absurd ((below .range).1 starts).2 (by decide)

end KeyLayout

end NetPool
