import NetPool.Address.Subnet
import NetPool.Proofs.Text

/-! Addresses and ranges written and read back, and ranges as intervals of numbers. -/

namespace NetPool

open Text

theorem max_toNat (a b : UInt64) : (max a b).toNat = max a.toNat b.toNat := by
  change (if a ≤ b then b else a).toNat = _
  split <;> rename_i le <;> rw [UInt64.le_iff_toNat_le] at le <;> omega

theorem min_toNat (a b : UInt64) : (min a b).toNat = min a.toNat b.toNat := by
  change (if a ≤ b then a else b).toNat = _
  split <;> rename_i le <;> rw [UInt64.le_iff_toNat_le] at le <;> omega

theorem toNat_sub_one {a : UInt64} (pos : 0 < a.toNat) : (a - 1).toNat = a.toNat - 1 :=
  UInt64.toNat_sub_of_le _ _ (UInt64.le_iff_toNat_le.2 pos)

theorem toUInt64_lt (a : Address) : a.toUInt64.toNat < 4294967296 := by
  rw [UInt32.toNat_toUInt64]
  exact a.toNat_lt

theorem offset?_eq_some {base b : Address} {n : UInt64} :
    offset? base n = some b ↔ b.toNat = base.toNat + n.toNat := by
  have small := b.toNat_lt_size
  unfold offset?
  split
  · rename_i room
    have sum : (base + n.toUInt32).toNat = base.toNat + n.toNat := by
      have size : UInt32.size = 2 ^ 32 := rfl
      rw [UInt32.toNat_add, UInt64.toNat_toUInt32]
      omega
    rw [Option.some.injEq, ← UInt32.toNat_inj, sum, eq_comm]
  · simp only [reduceCtorEq, false_iff]
    omega

theorem offset?_eq_none {base : Address} {n : UInt64} :
    offset? base n = none ↔ UInt32.size ≤ base.toNat + n.toNat := by
  simp [offset?]

namespace Address

theorem octet?_numeral : ∀ n < 256, octet? (numeral n) = some n := by decide +kernel

theorem ofOctets_octets (a : Address) : ofOctets (a.toNat / 0x1000000) (a.toNat / 0x10000 % 256)
    (a.toNat / 0x100 % 256) (a.toNat % 256) = a := by
  have whole : a.toNat / 0x1000000 * 0x1000000 + a.toNat / 0x10000 % 256 * 0x10000 +
      a.toNat / 0x100 % 256 * 0x100 + a.toNat % 256 = a.toNat := by omega
  rw [ofOctets, whole, UInt32.ofNat_toNat]

theorem chars_eq (a : Address) : a.chars = numeral (a.toNat / 0x1000000) ++ '.' ::
    (numeral (a.toNat / 0x10000 % 256) ++ '.' ::
      (numeral (a.toNat / 0x100 % 256) ++ '.' :: numeral (a.toNat % 256))) := by
  simp [chars, octets, List.intercalate]

theorem mem_chars {a : Address} {c : Char} (mem : c ∈ a.chars) : c.isDigit = true ∨ c = '.' := by
  have digit {n : Nat} (here : c ∈ numeral n) : c.isDigit = true ∨ c = '.' :=
    .inl (isDigit_of_mem_numeral here)
  rw [chars_eq] at mem
  simp only [List.mem_append, List.mem_cons] at mem
  rcases mem with here | dot | here | dot | here | dot | here
  · exact digit here
  · exact .inr dot
  · exact digit here
  · exact .inr dot
  · exact digit here
  · exact .inr dot
  · exact digit here

theorem not_mem_chars {a : Address} {c : Char} (other : ¬ c.isDigit = true) (dot : c ≠ '.') :
    c ∉ a.chars := by
  intro mem
  rcases mem_chars mem with digit | same
  · exact other digit
  · exact dot same

theorem not_isBlank_of_mem_chars {a : Address} {c : Char} (mem : c ∈ a.chars) :
    ¬ isBlank c = true := by
  rcases mem_chars mem with digit | rfl
  · exact fun blank => not_isDigit_of_isBlank blank digit
  · decide

theorem chars_ne_nil (a : Address) : a.chars ≠ [] := by
  rw [chars_eq]
  exact fun empty => numeral_ne_nil _ (List.append_eq_nil_iff.1 empty).1

theorem trim_chars (a : Address) : trim a.chars = a.chars :=
  trim_eq_self (fun _ head => not_isBlank_of_mem_chars (List.mem_of_head? head))
    (fun _ last => not_isBlank_of_mem_chars (List.mem_of_getLast? last))

theorem ofChars?_chars (a : Address) : ofChars? a.chars = some a := by
  have bound := a.toNat_lt
  have plain (n : Nat) : '.' ∉ numeral n := fun mem =>
    absurd (isDigit_of_mem_numeral mem) (by decide)
  have first : octet? (numeral (a.toNat / 0x1000000)) = some _ := octet?_numeral _ (by omega)
  have other (n : Nat) : octet? (numeral (n % 256)) = some (n % 256) := octet?_numeral _ (by omega)
  rw [ofChars?, chars_eq]
  simp only [cut?_append _ (plain _), first, other, bind, Option.bind, pure]
  rw [ofOctets_octets]

theorem octet?_eq_some {s : List Char} {n : Nat} : octet? s = some n ↔ s = numeral n ∧ n < 256 := by
  constructor
  · intro read
    unfold octet? at read
    split at read
    · rename_i short
      obtain ⟨digits, below⟩ := Option.filter_eq_some_iff.1 read
      obtain ⟨width, rfl⟩ := digits?_eq_some.1 digits
      refine ⟨?_, of_decide_eq_true below⟩
      by_cases long : width ≤ (numeral n).length
      · exact padded_eq_numeral long
      · -- a zero stands first, so nothing may follow it
        obtain ⟨z, more⟩ := Nat.exists_eq_add_one_of_ne_zero (by omega : width - (numeral n).length ≠ 0)
        have some := Nat.length_toDigits_pos (b := 10) (n := n)
        rw [padded, List.leftpad, more, List.replicate_succ, List.cons_append] at short
        have one := short.2 rfl
        simp only [List.length_cons, List.length_append, numeral] at one
        omega
    · cases read
  · rintro ⟨rfl, below⟩
    exact octet?_numeral n below

theorem octets_ofOctets {a b c d : Nat} (ha : a < 256) (hb : b < 256) (hc : c < 256) (hd : d < 256) :
    (ofOctets a b c d).octets = [a, b, c, d] := by
  have word : (ofOctets a b c d).toNat = a * 0x1000000 + b * 0x10000 + c * 0x100 + d :=
    UInt32.toNat_ofNat_of_lt' (by
      have size : UInt32.size = 0x100000000 := rfl
      omega)
  rw [octets, word]
  simp only [List.cons.injEq, and_true]
  omega

theorem ofChars?_eq_some {s : List Char} {a : Address} : ofChars? s = some a ↔ s = a.chars := by
  constructor
  · intro read
    simp only [ofChars?, bind, Option.bind_eq_some_iff, Prod.exists] at read
    obtain ⟨w, t, first, x, u, second, y, z, third, p, one, q, two, r, three, v, four, same⟩ := read
    obtain ⟨rfl, _⟩ := cut?_eq_some first
    obtain ⟨rfl, _⟩ := cut?_eq_some second
    obtain ⟨rfl, _⟩ := cut?_eq_some third
    obtain ⟨rfl, hp⟩ := octet?_eq_some.1 one
    obtain ⟨rfl, hq⟩ := octet?_eq_some.1 two
    obtain ⟨rfl, hr⟩ := octet?_eq_some.1 three
    obtain ⟨rfl, hv⟩ := octet?_eq_some.1 four
    cases same
    rw [chars, octets_ofOctets hp hq hr hv]
    simp [List.intercalate]
  · rintro rfl
    exact ofChars?_chars a

theorem read_trimmed {t : List Char} {a : Address} :
    ofChars? (trim t) = some a ↔ Blanked a.chars t :=
  ofChars?_eq_some.trans
    (trim_eq_iff a.chars_ne_nil fun _ mem => not_isBlank_of_mem_chars mem)

end Address

namespace AddressRange

theorem start_le (r : AddressRange) : r.start.toNat ≤ r.stop.toNat := UInt32.le_iff_toNat_le.1 r.ordered

theorem toUInt64_le (r : AddressRange) : r.start.toUInt64 ≤ r.stop.toUInt64 := by
  rw [UInt64.le_iff_toNat_le, UInt32.toNat_toUInt64, UInt32.toNat_toUInt64]
  exact r.start_le

theorem ofBounds_ordered (r : AddressRange) : ofBounds r.start r.stop = .ok r := by
  rw [ofBounds, dif_pos r.ordered]

theorem ofBounds_eq_some {a b : Address} {r : AddressRange} :
    (ofBounds a b).toOption = some r ↔ r.start = a ∧ r.stop = b := by
  constructor
  · intro made
    unfold ofBounds at made
    split at made
    · cases made
      exact ⟨rfl, rfl⟩
    · cases made
  · rintro ⟨rfl, rfl⟩
    rw [ofBounds_ordered]
    rfl

theorem not_isBlank_of_mem_chars {r : AddressRange} {c : Char} (mem : c ∈ r.chars) :
    ¬ isBlank c = true := by
  rcases List.mem_append.1 mem with start | rest
  · exact Address.not_isBlank_of_mem_chars start
  · rcases List.mem_cons.1 rest with rfl | stop
    · decide
    · exact Address.not_isBlank_of_mem_chars stop

theorem trim_chars (r : AddressRange) : trim r.chars = r.chars :=
  trim_eq_self (fun _ head => not_isBlank_of_mem_chars (List.mem_of_head? head))
    (fun _ last => not_isBlank_of_mem_chars (List.mem_of_getLast? last))

theorem parse_text (r : AddressRange) : parse r.text = .ok r := by
  have split : cut? '-' r.chars = some (r.start.chars, r.stop.chars) :=
    cut?_append _ (Address.not_mem_chars (by decide) (by decide))
  rw [parse, text, String.toList_ofList, trim_chars, split]
  simp only [Address.trim_chars, Address.ofChars?_chars]
  exact ofBounds_ordered r

theorem overlaps_iff {r s : AddressRange} :
    r.overlaps s = true ↔ r.start.toNat ≤ s.stop.toNat ∧ s.start.toNat ≤ r.stop.toNat := by
  simp only [overlaps, Bool.and_eq_true, decide_eq_true_eq, UInt32.le_iff_toNat_le]

theorem contains_iff {r : AddressRange} {a : Address} :
    r.contains a = true ↔ r.start.toNat ≤ a.toNat ∧ a.toNat ≤ r.stop.toNat := by
  simp only [contains, Bool.and_eq_true, decide_eq_true_eq, UInt32.le_iff_toNat_le]

theorem containsRange_iff {r s : AddressRange} :
    r.containsRange s = true ↔ r.start.toNat ≤ s.start.toNat ∧ s.stop.toNat ≤ r.stop.toNat := by
  simp only [containsRange, Bool.and_eq_true, decide_eq_true_eq, UInt32.le_iff_toNat_le]

theorem overlaps_self (r : AddressRange) : r.overlaps r = true := by
  have ordered := r.start_le
  exact overlaps_iff.2 ⟨ordered, ordered⟩

theorem overlaps_comm (r s : AddressRange) : r.overlaps s = s.overlaps r := by
  rw [Bool.eq_iff_iff, overlaps_iff, overlaps_iff, and_comm]

theorem size_toNat (r : AddressRange) : r.size.toNat = r.stop.toNat - r.start.toNat + 1 := by
  have stop := r.stop.toNat_lt
  have one : (1 : UInt64).toNat = 1 := rfl
  rw [size, UInt64.toNat_add, UInt64.toNat_sub_of_le _ _ r.toUInt64_le, UInt32.toNat_toUInt64,
    UInt32.toNat_toUInt64, one]
  omega

theorem eq_of_start_size {r s : AddressRange} (start : r.start = s.start)
    (size : r.size.toNat = s.size.toNat) : r = s := by
  rw [size_toNat, size_toNat] at size
  have ordered := r.start_le
  have ordered' := s.start_le
  have stop : r.stop = s.stop := by
    apply UInt32.toNat_inj.1
    rw [start] at size ordered
    omega
  cases r
  cases s
  simp only at start stop
  subst start stop
  rfl

theorem span_eq {a b : UInt64} (le : a ≤ b) (small : b.toNat < 4294967296) :
    (span a b).start.toNat = a.toNat ∧ (span a b).stop.toNat = b.toNat := by
  have order := UInt64.le_iff_toNat_le.1 le
  have start : a.toUInt32.toNat = a.toNat := by
    rw [UInt64.toNat_toUInt32]; omega
  have stop : b.toUInt32.toNat = b.toNat := by
    rw [UInt64.toNat_toUInt32]; omega
  have ordered : a.toUInt32 ≤ b.toUInt32 := by
    rw [UInt32.le_iff_toNat_le, start, stop]
    exact order
  rw [span]
  simp only [dif_pos ordered]
  exact ⟨start, stop⟩

end AddressRange

namespace Subnet

theorem ext {s t : Subnet} (network : s.network = t.network) (length : s.length = t.length) :
    s = t := by
  cases s
  cases t
  simp only at network length
  subst network length
  rfl

theorem make_iff {a : Address} {n : Nat} {s : Subnet} :
    (make a n).toOption = some s ↔ a &&& mask s.length = s.network ∧ n = s.length := by
  unfold make
  constructor
  · intro made
    split at made
    · cases made
      exact ⟨rfl, rfl⟩
    · cases made
  · rintro ⟨within, rfl⟩
    rw [dif_pos s.length_le]
    exact congrArg some (ext within rfl)

theorem make_self (s : Subnet) : make s.network s.length = .ok s := by
  rw [make, dif_pos s.length_le]
  exact congrArg Except.ok (ext s.canonical rfl)

end Subnet

end NetPool
