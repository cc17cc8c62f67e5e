import Mathlib.Data.Nat.Digits.Defs
import Mathlib.Data.String.Basic
import NetPool.Proofs.Json
import NetPool.Text.Bytes

/-! The order of texts. Texts stand in the order of their UTF-8 bytes, and numerals filled up to one width
in the order of their numbers. -/

namespace NetPool.Text

theorem byte_lt_iff {m n : Nat} (hm : m < 256) (hn : n < 256) :
    UInt8.ofNat m < UInt8.ofNat n ↔ m < n := by
  rw [UInt8.lt_iff_toNat_lt, UInt8.toNat_ofNat_of_lt' hm, UInt8.toNat_ofNat_of_lt' hn]

theorem byte_eq_iff {m n : Nat} (hm : m < 256) (hn : n < 256) :
    UInt8.ofNat m = UInt8.ofNat n ↔ m = n := by
  rw [← UInt8.toNat_inj, UInt8.toNat_ofNat_of_lt' hm, UInt8.toNat_ofNat_of_lt' hn]

/-- Numbers of four digits to the base 64 differ first in a digit where the smaller one has less. -/
theorem digits_lt {m n : Nat} (lt : m < n) :
    m / 262144 < n / 262144 ∨ m / 262144 = n / 262144 ∧
      (m / 4096 % 64 < n / 4096 % 64 ∨ m / 4096 % 64 = n / 4096 % 64 ∧
        (m / 64 % 64 < n / 64 % 64 ∨ m / 64 % 64 = n / 64 % 64 ∧ m % 64 < n % 64)) := by
  have sum (k : Nat) : k = k / 262144 * 262144 + k / 4096 % 64 * 4096 + k / 64 % 64 * 64 + k % 64 := by
    omega
  have first := sum m
  have second := sum n
  have digits (k : Nat) : k / 4096 % 64 < 64 ∧ k / 64 % 64 < 64 ∧ k % 64 < 64 :=
    ⟨Nat.mod_lt _ (by decide), Nat.mod_lt _ (by decide), Nat.mod_lt _ (by decide)⟩
  have small := digits m
  have large := digits n
  clear sum digits
  generalize m / 262144 = m₃, m / 4096 % 64 = m₂, m / 64 % 64 = m₁, m % 64 = m₀ at *
  generalize n / 262144 = n₃, n / 4096 % 64 = n₂, n / 64 % 64 = n₁, n % 64 = n₀ at *
  omega

/-- Of two characters the bytes of the smaller one come first, whatever follows. -/
theorem utf8EncodeChar_lt {c d : Char} (lt : c < d) (x y : Bytes) :
    String.utf8EncodeChar c ++ x < String.utf8EncodeChar d ++ y := by
  have order : c.val.toNat < d.val.toNat := lt
  have top : d.val.toNat < 0x110000 := by
    have valid : d.val.toNat < 0xD800 ∨ 0xDFFF < d.val.toNat ∧ d.val.toNat < 0x110000 := d.valid
    omega
  unfold String.utf8EncodeChar
  dsimp only
  split_ifs
  all_goals
    simp only [List.cons_append, List.cons_lt_cons_iff]
    simp (disch := omega) only [byte_lt_iff, byte_eq_iff, Nat.add_lt_add_iff_right, Nat.add_right_cancel_iff]
  -- Encodings of different lengths differ in the first byte; what is left are two of four bytes.
  any_goals omega
  rw [Nat.mod_eq_of_lt (by omega : c.val.toNat / 262144 < 8),
    Nat.mod_eq_of_lt (by omega : d.val.toNat / 262144 < 8)]
  have digits := digits_lt order
  tauto

theorem flatMap_utf8_lt {s t : List Char} (lt : s < t) :
    s.flatMap String.utf8EncodeChar < t.flatMap String.utf8EncodeChar := by
  induction s generalizing t with
  | nil =>
    cases t with
    | nil => cases lt
    | cons d t =>
      obtain ⟨b, bytes, first⟩ := List.exists_cons_of_ne_nil (String.utf8EncodeChar_ne_nil (c := d))
      rw [List.flatMap_nil, List.flatMap_cons, first]
      exact List.nil_lt_cons _ _
  | cons c s ih =>
    cases t with
    | nil => cases lt
    | cons d t =>
      rw [List.flatMap_cons, List.flatMap_cons]
      rcases List.cons_lt_cons_iff.1 lt with less | ⟨rfl, rest⟩
      · exact utf8EncodeChar_lt less _ _
      · exact List.append_left_lt (ih rest)

/-- Texts stand in the order of their bytes. -/
theorem utf8_lt_iff {s t : String} : utf8 s < utf8 t ↔ s < t := by
  have forward {s t : String} (lt : s < t) : utf8 s < utf8 t := by
    rw [utf8_eq, utf8_eq]
    exact flatMap_utf8_lt (String.lt_iff_toList_lt.1 lt)
  refine ⟨fun lt => Decidable.byContradiction fun above => ?_, forward⟩
  by_cases below : t < s
  · exact List.lt_asymm lt (forward below)
  · rw [String.le_antisymm below above] at lt
    exact List.lt_irrefl _ lt

theorem append_left_lt_iff {before s t : List Char} : before ++ s < before ++ t ↔ s < t := by
  induction before with
  | nil => rfl
  | cons c before ih =>
    rw [List.cons_append, List.cons_append, List.cons_lt_cons_iff, ih]
    exact ⟨fun h => h.elim (fun less => absurd less (Char.lt_irrefl c)) And.right, fun lt => .inr ⟨rfl, lt⟩⟩

/-- Of two texts of one length the smaller one stays the smaller, whatever follows. -/
theorem append_lt_append {s t : List Char} (same : s.length = t.length) (lt : s < t) (x y : List Char) :
    s ++ x < t ++ y := by
  induction s generalizing t with
  | nil =>
    rw [List.eq_nil_of_length_eq_zero same.symm] at lt
    exact absurd lt (List.lt_irrefl [])
  | cons c s ih =>
    cases t with
    | nil => cases lt
    | cons d t =>
      rw [List.cons_append, List.cons_append, List.cons_lt_cons_iff]
      exact (List.cons_lt_cons_iff.1 lt).imp_right fun ⟨eq, lt⟩ => ⟨eq, ih (Nat.succ.inj same) lt⟩

/-- The value of digits after a number, for two texts of one length: the first difference decides, be it in
the numbers before. -/
theorem ofDigitChars_lt {s t : List Char} (same : s.length = t.length) (left : ∀ c ∈ s, c.isDigit = true)
    (right : ∀ c ∈ t, c.isDigit = true) {m n : Nat} (lt : m < n ∨ m = n ∧ s < t) :
    Nat.ofDigitChars 10 s m < Nat.ofDigitChars 10 t n := by
  induction s generalizing t m n with
  | nil =>
    rw [List.eq_nil_of_length_eq_zero same.symm] at lt ⊢
    rcases lt with lt | ⟨_, lt⟩
    · exact lt
    · exact absurd lt (List.lt_irrefl [])
  | cons c s ih =>
    cases t with
    | nil => cases same
    | cons d t =>
      have digit := digitValue_lt (left c List.mem_cons_self)
      rw [Nat.ofDigitChars_cons, Nat.ofDigitChars_cons]
      refine ih (Nat.succ.inj same) (fun c mem => left c (List.mem_cons_of_mem _ mem))
        (fun c mem => right c (List.mem_cons_of_mem _ mem)) ?_
      rcases lt with less | ⟨rfl, lt⟩
      · exact .inl (by omega)
      · rcases List.cons_lt_cons_iff.1 lt with less | ⟨rfl, rest⟩
        · have zero : '0'.toNat ≤ c.toNat := (Char.isDigit_iff_toNat.1 (left c List.mem_cons_self)).1
          have less : c.toNat < d.toNat := less
          exact .inl (by omega)
        · exact .inr ⟨rfl, rest⟩

theorem length_padded {width n : Nat} (pos : 0 < width) (fits : n < 10 ^ width) :
    (padded width n).length = width := by
  rw [padded, List.length_leftpad]
  exact Nat.max_eq_left ((Nat.length_toDigits_le_iff (by decide) pos).2 fits)

/-- Numerals of one width stand in the order of their numbers. -/
theorem padded_lt_iff {width m n : Nat} (pos : 0 < width) (first : m < 10 ^ width)
    (second : n < 10 ^ width) : padded width m < padded width n ↔ m < n := by
  have forward {m n : Nat} (first : m < 10 ^ width) (second : n < 10 ^ width)
      (lt : padded width m < padded width n) : m < n := by
    rw [← ofDigitChars_padded width m, ← ofDigitChars_padded width n]
    exact ofDigitChars_lt ((length_padded pos first).trans (length_padded pos second).symm)
      (fun _ => isDigit_of_mem_padded) (fun _ => isDigit_of_mem_padded) (.inr ⟨rfl, lt⟩)
  refine ⟨forward first second, fun lt => Decidable.byContradiction fun above => ?_⟩
  by_cases below : padded width n < padded width m
  · exact Nat.lt_asymm lt (forward second first below)
  · exact Nat.ne_of_lt lt (padded_inj (List.le_antisymm below above))

end NetPool.Text
