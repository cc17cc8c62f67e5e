import NetPool.Text.Blank
import NetPool.Text.Cut
import NetPool.Text.Decimal

/-! Texts written and read back: numerals, trimmed texts, lines. -/

namespace NetPool.Text

theorem isDigit_of_mem_numeral {n : Nat} {c : Char} (mem : c ∈ numeral n) : c.isDigit = true :=
  Nat.isDigit_of_mem_toDigits (by decide) (by decide) mem

theorem isDigit_of_mem_padded {width n : Nat} {c : Char} (mem : c ∈ padded width n) :
    c.isDigit = true := by
  rcases List.mem_append.1 mem with zero | digit
  · rw [(List.mem_replicate.1 zero).2]
    decide
  · exact isDigit_of_mem_numeral digit

theorem numeral_ne_nil (n : Nat) : numeral n ≠ [] := Nat.toDigits_ne_nil

theorem padded_ne_nil (width n : Nat) : padded width n ≠ [] := by
  intro empty
  exact numeral_ne_nil n (List.append_eq_nil_iff.1 empty).2

theorem digits?_numeral (n : Nat) : digits? (numeral n) = some n := by
  have digits : (numeral n).all Char.isDigit = true :=
    List.all_eq_true.2 fun c mem => isDigit_of_mem_numeral mem
  rw [digits?, if_pos ⟨numeral_ne_nil n, digits⟩, numeral, Nat.ofDigitChars_ten_toDigits]

theorem ofDigitChars_padded (width n : Nat) : Nat.ofDigitChars 10 (padded width n) 0 = n := by
  rw [padded, List.leftpad, Nat.ofDigitChars_append, Nat.ofDigitChars_replicate_zero, Nat.mul_zero,
    numeral, Nat.ofDigitChars_ten_toDigits]

theorem digits?_padded (width n : Nat) : digits? (padded width n) = some n := by
  have digits : (padded width n).all Char.isDigit = true :=
    List.all_eq_true.2 fun c mem => isDigit_of_mem_padded mem
  rw [digits?, if_pos ⟨padded_ne_nil width n, digits⟩, ofDigitChars_padded]

/-- Digits have no sign to look for. -/
theorem number?_digits {limit : Nat} {s : List Char} (digits : ∀ c ∈ s, c.isDigit = true) :
    number? limit s = (digits? s).filter (· < limit) := by
  unfold number?
  split
  · rename_i rest
    have plus := digits '+' List.mem_cons_self
    exact absurd plus (by decide)
  · rfl

theorem number?_numeral {limit n : Nat} (below : n < limit) : number? limit (numeral n) = some n := by
  rw [number?_digits fun c mem => isDigit_of_mem_numeral mem, digits?_numeral,
    Option.filter_some, if_pos (decide_eq_true below)]

theorem number?_padded {limit width n : Nat} (below : n < limit) :
    number? limit (padded width n) = some n := by
  rw [number?_digits fun c mem => isDigit_of_mem_padded mem, digits?_padded,
    Option.filter_some, if_pos (decide_eq_true below)]

theorem number?_lt {limit n : Nat} {s : List Char} (read : number? limit s = some n) : n < limit :=
  of_decide_eq_true (Option.filter_eq_some_iff.1 read).2

theorem digitValue_lt {c : Char} (digit : c.isDigit = true) : c.toNat - '0'.toNat < 10 := by
  have range : 48 ≤ c.toNat ∧ c.toNat ≤ 57 := Char.isDigit_iff_toNat.1 digit
  change c.toNat - 48 < 10
  omega

theorem digitChar_digitValue {c : Char} (digit : c.isDigit = true) :
    Nat.digitChar (c.toNat - '0'.toNat) = c := by
  have range : 48 ≤ c.toNat ∧ c.toNat ≤ 57 := Char.isDigit_iff_toNat.1 digit
  apply Char.toNat_inj.1
  rw [Nat.toNat_digitChar_of_lt_ten (digitValue_lt digit)]
  change 48 + (c.toNat - 48) = c.toNat
  omega

/-- Digits after the numeral of a positive number make it longer, and stay as they are. -/
theorem numeral_ofDigitChars {n : Nat} (pos : 0 < n) {s : List Char} (digits : ∀ c ∈ s, c.isDigit = true) :
    numeral (Nat.ofDigitChars 10 s n) = numeral n ++ s := by
  induction s generalizing n with
  | nil => exact (List.append_nil _).symm
  | cons c s ih =>
    have digit := digits c List.mem_cons_self
    have longer : numeral (10 * n + (c.toNat - '0'.toNat)) = numeral n ++ [c] := by
      have below := digitValue_lt digit
      rw [numeral, ← Nat.toDigits_append_toDigits (by decide) pos below, Nat.toDigits_of_lt_base below,
        digitChar_digitValue digit]
      rfl
    rw [Nat.ofDigitChars_cons, ih (by omega) fun d mem => digits d (List.mem_cons_of_mem c mem), longer,
      List.append_assoc, List.singleton_append]

theorem padded_eq_numeral {width n : Nat} (short : width ≤ (numeral n).length) : padded width n = numeral n := by
  rw [padded, List.leftpad, Nat.sub_eq_zero_of_le short]
  rfl

theorem zero_cons_padded (width n : Nat) : ∃ w, '0' :: padded width n = padded w n :=
  ⟨width - (numeral n).length + 1 + (numeral n).length, by
    rw [padded, padded, List.leftpad, List.leftpad, Nat.add_sub_cancel, List.replicate_succ, List.cons_append]⟩

/-- A text of digits is the numeral of its value, with zeros before it. -/
theorem padded_ofDigitChars {s : List Char} (filled : s ≠ []) (digits : ∀ c ∈ s, c.isDigit = true) :
    ∃ width, s = padded width (Nat.ofDigitChars 10 s 0) := by
  induction s with
  | nil => exact absurd rfl filled
  | cons c s ih =>
    have digit := digits c List.mem_cons_self
    have rest : ∀ d ∈ s, d.isDigit = true := fun d mem => digits d (List.mem_cons_of_mem c mem)
    rw [Nat.ofDigitChars_cons, Nat.mul_zero, Nat.zero_add]
    by_cases zero : c = '0'
    · subst zero
      by_cases last : s = []
      · exact ⟨1, by subst last; decide⟩
      · obtain ⟨width, same⟩ := ih last rest
        obtain ⟨w, longer⟩ := zero_cons_padded width (Nat.ofDigitChars 10 s 0)
        rw [← same] at longer
        exact ⟨w, longer⟩
    · have pos : 0 < c.toNat - '0'.toNat := by
        refine Nat.pos_of_ne_zero fun none => zero ?_
        rw [← digitChar_digitValue digit, none]
        rfl
      refine ⟨0, ?_⟩
      rw [padded_eq_numeral (Nat.zero_le _), numeral_ofDigitChars pos rest, numeral,
        Nat.toDigits_of_lt_base (digitValue_lt digit), digitChar_digitValue digit]
      rfl

theorem digits?_eq_some {s : List Char} {n : Nat} : digits? s = some n ↔ ∃ width, s = padded width n := by
  constructor
  · intro read
    unfold digits? at read
    split at read
    · rename_i fine
      cases read
      exact padded_ofDigitChars fine.1 (List.all_eq_true.1 fine.2)
    · cases read
  · rintro ⟨width, rfl⟩
    exact digits?_padded width n

/-- The numeral of a number, with zeros and perhaps a plus sign before it. -/
def Spells (n : Nat) (s : List Char) : Prop := ∃ width, s = padded width n ∨ s = '+' :: padded width n

theorem number?_eq_some {limit n : Nat} {s : List Char} :
    number? limit s = some n ↔ Spells n s ∧ n < limit := by
  constructor
  · intro read
    refine ⟨?_, number?_lt read⟩
    unfold number? at read
    split at read
    · obtain ⟨width, same⟩ := digits?_eq_some.1 (Option.filter_eq_some_iff.1 read).1
      exact ⟨width, .inr (congrArg _ same)⟩
    · obtain ⟨width, same⟩ := digits?_eq_some.1 (Option.filter_eq_some_iff.1 read).1
      exact ⟨width, .inl same⟩
  · rintro ⟨⟨width, rfl | rfl⟩, below⟩
    · exact number?_padded below
    · exact Option.filter_eq_some_iff.2 ⟨digits?_padded width n, decide_eq_true below⟩

theorem spells_padded (width n : Nat) : Spells n (padded width n) := ⟨width, .inl rfl⟩

theorem spells_numeral (n : Nat) : Spells n (numeral n) :=
  ⟨0, .inl (padded_eq_numeral (Nat.zero_le _)).symm⟩

theorem Spells.filled {n : Nat} {s : List Char} (spells : Spells n s) : s ≠ [] := by
  obtain ⟨width, rfl | rfl⟩ := spells
  · exact padded_ne_nil width n
  · exact List.cons_ne_nil _ _

theorem Spells.not_mem {n : Nat} {s : List Char} {c : Char} (spells : Spells n s)
    (other : ¬ c.isDigit = true) (plus : c ≠ '+') : c ∉ s := by
  have plain (width : Nat) : c ∉ padded width n := fun mem => other (isDigit_of_mem_padded mem)
  obtain ⟨width, rfl | rfl⟩ := spells
  · exact plain width
  · exact fun mem => (List.mem_cons.1 mem).elim plus (plain width)

theorem padded_inj {width m n : Nat} (same : padded width m = padded width n) : m = n := by
  have read := congrArg digits? same
  rw [digits?_padded, digits?_padded] at read
  exact Option.some.inj read

theorem numeral_inj {m n : Nat} (same : numeral m = numeral n) : m = n := by
  have read := congrArg digits? same
  rw [digits?_numeral, digits?_numeral] at read
  exact Option.some.inj read

theorem not_isDigit_of_isBlank {c : Char} (blank : isBlank c = true) : ¬ c.isDigit = true := by
  intro digit
  have range := Char.isDigit_iff_toNat.1 digit
  simp only [isBlank, Bool.or_eq_true, Bool.and_eq_true, decide_eq_true_eq, beq_iff_eq] at blank
  have bounds : (48 : Nat) ≤ c.toNat ∧ c.toNat ≤ 57 := range
  omega

theorem trimLeft_eq_self {s : List Char} (first : ∀ c, s.head? = some c → ¬ isBlank c = true) :
    trimLeft s = s := by
  cases s with
  | nil => rfl
  | cons c s => rw [trimLeft, List.dropWhile_cons, if_neg (first c rfl)]

theorem trim_eq_self {s : List Char} (first : ∀ c, s.head? = some c → ¬ isBlank c = true)
    (last : ∀ c, s.getLast? = some c → ¬ isBlank c = true) : trim s = s := by
  rw [trim, trimLeft_eq_self first, trimRight, trimLeft_eq_self, List.reverse_reverse]
  intro c head
  rw [List.head?_reverse] at head
  exact last c head

/-- A text with blanks around it. -/
def Blanked (s t : List Char) : Prop :=
  ∃ before after, t = before ++ (s ++ after) ∧ (∀ c ∈ before, isBlank c = true) ∧ ∀ c ∈ after, isBlank c = true

theorem trimLeft_append {before s : List Char} (blank : ∀ c ∈ before, isBlank c = true) :
    trimLeft (before ++ s) = trimLeft s := List.dropWhile_append_of_pos blank

theorem trimRight_append {after s : List Char} (blank : ∀ c ∈ after, isBlank c = true) :
    trimRight (s ++ after) = trimRight s := by
  rw [trimRight, List.reverse_append, trimLeft_append fun c mem => blank c (List.mem_reverse.1 mem), trimRight]

theorem blanked_trim (t : List Char) : Blanked (trim t) t := by
  refine ⟨t.takeWhile isBlank, ((trimLeft t).reverse.takeWhile isBlank).reverse, ?_,
    fun c mem => List.all_eq_true.1 List.all_takeWhile c mem,
    fun c mem => List.all_eq_true.1 List.all_takeWhile c (List.mem_reverse.1 mem)⟩
  have right : trim t ++ ((trimLeft t).reverse.takeWhile isBlank).reverse = trimLeft t := by
    rw [trim, trimRight, trimLeft, ← List.reverse_append, List.takeWhile_append_dropWhile, List.reverse_reverse]
  rw [right, trimLeft, List.takeWhile_append_dropWhile]

/-- A text without blanks is what is left of it and blanks around it. -/
theorem trim_eq_iff {s t : List Char} (filled : s ≠ []) (plain : ∀ c ∈ s, ¬ isBlank c = true) :
    trim t = s ↔ Blanked s t := by
  constructor
  · rintro rfl
    exact blanked_trim t
  · rintro ⟨before, after, rfl, first, last⟩
    have stays : trimLeft (s ++ after) = s ++ after := trimLeft_eq_self fun c head => by
      rw [List.head?_append, List.head?_eq_some_head filled] at head
      exact plain c (Option.some.inj head ▸ List.head_mem filled)
    rw [trim, trimLeft_append first, stays, trimRight_append last, trimRight, trimLeft_eq_self,
      List.reverse_reverse]
    exact fun c head => plain c (List.mem_reverse.1 (List.mem_of_head? head))

theorem Blanked.self (s : List Char) : Blanked s s :=
  ⟨[], [], by rw [List.append_nil, List.nil_append], nofun, nofun⟩

theorem Blanked.filled {s t : List Char} (blanked : Blanked s t) (filled : s ≠ []) : t ≠ [] := by
  obtain ⟨before, after, rfl, _, _⟩ := blanked
  intro empty
  exact filled (List.append_eq_nil_iff.1 (List.append_eq_nil_iff.1 empty).2).1

theorem Blanked.not_mem {s t : List Char} {c : Char} (blanked : Blanked s t) (plain : c ∉ s)
    (filled : ¬ isBlank c = true) : c ∉ t := by
  obtain ⟨before, after, rfl, first, last⟩ := blanked
  intro mem
  rcases List.mem_append.1 mem with blank | mem
  · exact filled (first c blank)
  · exact (List.mem_append.1 mem).elim plain fun blank => filled (last c blank)

theorem cutLast?_eq_some {sep : Char} {s a b : List Char} (cut : cutLast? sep s = some (a, b)) :
    s = a ++ sep :: b := by
  obtain ⟨⟨x, y⟩, found, same⟩ := Option.map_eq_some_iff.1 cut
  cases same
  have turned := congrArg List.reverse (cut?_eq_some found).1
  simpa using turned

theorem cutLast?_append {sep : Char} (a : List Char) {b : List Char} (h : sep ∉ b) :
    cutLast? sep (a ++ sep :: b) = some (a, b) := by
  have turned : (a ++ sep :: b).reverse = b.reverse ++ sep :: a.reverse := by simp
  rw [cutLast?, turned, cut?_append _ (by simpa using h)]
  simp

/-- A separator that occurs once splits a text in one way. -/
theorem append_sep_inj {sep : Char} {a b c d : List Char} (same : a ++ sep :: b = c ++ sep :: d)
    (left : sep ∉ c) (right : sep ∉ d) : a = c ∧ b = d := by
  have once := congrArg (List.count sep) same
  rw [List.count_append, List.count_append, List.count_cons_self, List.count_cons_self,
    List.count_eq_zero.2 left, List.count_eq_zero.2 right] at once
  have plain : sep ∉ a := List.count_eq_zero.1 (by omega)
  have cuts := congrArg (cut? sep) same
  rw [cut?_append b plain, cut?_append d left] at cuts
  cases cuts
  exact ⟨rfl, rfl⟩

/-- Lines that hold no line break, each with one after it, are read back as they are. -/
theorem lines_flatMap {ls : List (List Char)} (whole : ∀ l ∈ ls, '\n' ∉ l)
    (plain : ∀ l ∈ ls, l.getLast? ≠ some '\r') : lines (ls.flatMap (· ++ ['\n'])) = ls := by
  have joined : ls.flatMap (· ++ ['\n']) = ['\n'].intercalate (ls ++ [[]]) := by
    induction ls with
    | nil => rfl
    | cons l ls ih =>
      have rest := ih (fun k mem => whole k (List.mem_cons_of_mem l mem))
        (fun k mem => plain k (List.mem_cons_of_mem l mem))
      rw [List.flatMap_cons, rest, List.cons_append, List.intercalate_cons_of_ne_nil (by simp)]
  have parts : (ls.flatMap (· ++ ['\n'])).splitOn '\n' = ls ++ [[]] := by
    rw [joined, List.splitOn_intercalate]
    · intro l mem
      rcases List.mem_append.1 mem with here | last
      · exact whole l here
      · rw [List.mem_singleton.1 last]
        exact List.not_mem_nil
    · simp
  rw [lines, parts, List.dropLast_concat, List.getLast?_concat, List.map_congr_left (g := id),
    List.map_id]
  · exact List.append_nil ls
  · intro l mem
    exact if_neg (plain l mem)

end NetPool.Text
