import NetPool.Json.Reader
import NetPool.Json.Writer
import NetPool.Proofs.Text
import Mathlib.Data.List.Basic
import Mathlib.Data.List.Induction
import Mathlib.Data.List.TakeDrop

/-! JSON written and read back: strings with their escapes, whole numbers, records of these. -/

namespace NetPool

namespace Text

theorem utf8_append (s t : String) : utf8 (s ++ t) = utf8 s ++ utf8 t := by
  simp [utf8, String.toUTF8]

theorem utf8_ofList (s : List Char) : utf8 (String.ofList s) = s.flatMap String.utf8EncodeChar := by
  simp [utf8, String.toUTF8, List.utf8Encode]

theorem utf8_eq (s : String) : utf8 s = s.toList.flatMap String.utf8EncodeChar := by
  rw [← utf8_ofList, String.ofList_toList]

/-- A character is one byte, or else all of its bytes are large. -/
theorem utf8EncodeChar_cases (c : Char) :
    c.toNat < 0x80 ∧ String.utf8EncodeChar c = [UInt8.ofNat c.toNat] ∨
      0x80 ≤ c.toNat ∧ ∀ b ∈ String.utf8EncodeChar c, (0x80 : Nat) ≤ b.toNat := by
  unfold String.utf8EncodeChar
  dsimp only
  have value : c.val.toNat = c.toNat := rfl
  rw [value]
  split
  · exact .inl ⟨by omega, rfl⟩
  · refine .inr ⟨by omega, ?_⟩
    split
    · simp; omega
    · split
      · simp; omega
      · simp; omega

/-- Only zero is written with a zero in front. -/
theorem head_numeral {n : Nat} (pos : 0 < n) : (numeral n).head? ≠ some '0' := by
  have digits : ∀ n < 10, 0 < n → (numeral n).head? ≠ some '0' := by decide +kernel
  induction n using Nat.strongRecOn with
  | ind n ih =>
    by_cases small : n < 10
    · exact digits n small pos
    · have split : numeral n = numeral (n / 10) ++ [(n % 10).digitChar] :=
        Nat.toDigits_of_base_le (by decide) (by omega)
      rw [split, List.head?_append, List.head?_eq_some_head (numeral_ne_nil _), Option.some_or,
        ← List.head?_eq_some_head]
      exact ih (n / 10) (by omega) (by omega)

end Text

namespace Json

open Text

/-- The pieces that a written character is read as. -/
def pieces (c : Char) : List Piece :=
  if c.toNat < 0x20 ∧ c.toNat ∉ [0x08, 0x0C, 0x0A, 0x0D, 0x09] then [.unit c.toNat]
  else (String.utf8EncodeChar c).map .byte

theorem stringBody_plain {b : UInt8} (quote : b ≠ 0x22) (slash : b ≠ 0x5C) (shown : ¬ b < 0x20)
    (seen : List Piece) (rest : Bytes) :
    stringBody seen (b :: rest) = stringBody (.byte b :: seen) rest := by
  rw [stringBody]
  · simp [shown]
  all_goals simp_all

theorem hexUnit?_hexDigit : ∀ n < 0x20,
    ['\\', 'u', '0', '0', hexDigit (n / 16), hexDigit (n % 16)].flatMap String.utf8EncodeChar =
      [0x5C, 0x75, 0x30, 0x30, UInt8.ofNat (hexDigit (n / 16)).toNat,
        UInt8.ofNat (hexDigit (n % 16)).toNat] ∧
    hexUnit? 0x30 0x30 (UInt8.ofNat (hexDigit (n / 16)).toNat)
      (UInt8.ofNat (hexDigit (n % 16)).toNat) = some n := by decide +kernel

theorem stringBody_bytes {bytes : Bytes}
    (plain : ∀ b ∈ bytes, b ≠ 0x22 ∧ b ≠ 0x5C ∧ ¬ b < 0x20) (seen : List Piece) (rest : Bytes) :
    stringBody seen (bytes ++ rest) = stringBody ((bytes.map .byte).reverse ++ seen) rest := by
  induction bytes generalizing seen with
  | nil => rfl
  | cons b bytes ih =>
    obtain ⟨quote, slash, shown⟩ := plain b List.mem_cons_self
    rw [List.cons_append, stringBody_plain quote slash shown,
      ih (fun b mem => plain b (List.mem_cons_of_mem _ mem))]
    simp

/-- A character that stands as it is. -/
theorem escape_plain {c : Char} (quote : c ≠ '\"') (slash : c ≠ '\\') (shown : ¬ c.toNat < 0x20) :
    ∀ b ∈ String.utf8EncodeChar c, b ≠ 0x22 ∧ b ≠ 0x5C ∧ ¬ b < 0x20 := by
  have ne (d : Char) (other : c ≠ d) : c.toNat ≠ d.toNat := fun same => other (Char.toNat_inj.1 same)
  have quote := ne _ quote
  have slash := ne _ slash
  have values : '\"'.toNat = 0x22 ∧ '\\'.toNat = 0x5C := by decide
  rw [values.1] at quote
  rw [values.2] at slash
  intro b mem
  have word (n : Nat) (small : n < 0x80) (same : b.toNat = n) : b = UInt8.ofNat n := by
    rw [← same, UInt8.ofNat_toNat]
  rcases utf8EncodeChar_cases c with ⟨small, one⟩ | ⟨_, large⟩
  · rw [one, List.mem_singleton] at mem
    have value : b.toNat = c.toNat := by
      rw [mem]
      exact UInt8.toNat_ofNat_of_lt' (Nat.lt_trans small (by decide))
    refine ⟨?_, ?_, ?_⟩
    · rintro rfl
      exact quote value.symm
    · rintro rfl
      exact slash value.symm
    · rw [UInt8.lt_iff_toNat_lt, value]
      exact shown
  · have large := large b mem
    refine ⟨?_, ?_, ?_⟩
    · rintro rfl
      exact absurd large (by decide)
    · rintro rfl
      exact absurd large (by decide)
    · rw [UInt8.lt_iff_toNat_lt]
      exact Nat.not_lt.2 (Nat.le_trans (by decide) large)

theorem stringBody_escape (c : Char) (seen : List Piece) (rest : Bytes) :
    stringBody seen ((escape c).flatMap String.utf8EncodeChar ++ rest) =
      stringBody ((pieces c).reverse ++ seen) rest := by
  have only {n : Nat} (d : Char) (value : d.toNat = n) (same : c.toNat = n) : c = d :=
    Char.toNat_inj.1 (same.trans value.symm)
  unfold escape
  split
  · cases only '\"' rfl ‹_›
    rfl
  · cases only '\\' rfl ‹_›
    rfl
  · cases only '\x08' rfl ‹_›
    rfl
  · cases only '\x0c' rfl ‹_›
    rfl
  · cases only '\n' rfl ‹_›
    rfl
  · cases only '\r' rfl ‹_›
    rfl
  · cases only '\t' rfl ‹_›
    rfl
  · rename_i quote slash b f n r t
    split
    · rename_i small
      have other : c.toNat ∉ [0x08, 0x0C, 0x0A, 0x0D, 0x09] := by
        simp only [List.mem_cons, List.not_mem_nil, or_false, not_or]
        exact ⟨b, f, n, r, t⟩
      obtain ⟨bytes, unit⟩ := hexUnit?_hexDigit c.toNat small
      rw [bytes, pieces, if_pos ⟨small, other⟩]
      simp only [List.cons_append, List.nil_append, stringBody, unit]
      rfl
    · rename_i shown
      have plain := escape_plain (fun same => quote (by rw [same]; rfl))
        (fun same => slash (by rw [same]; rfl)) shown
      rw [pieces, if_neg fun h => shown h.1, List.flatMap_singleton, stringBody_bytes plain]

/-- What a piece alone stands for. -/
def spelt : Piece → Bytes
  | .byte b => [b]
  | .unit n => utf8Of n

theorem pieceBytes_unit {n : Nat} (small : n < 0x20) (done : Bytes) (rest : List Piece) :
    pieceBytes done (.unit n :: rest) = pieceBytes (utf8Of n ++ done) rest := by
  have low : ¬ (0xDC00 ≤ n ∧ n < 0xE000) := by omega
  have high : ¬ (0xD800 ≤ n ∧ n < 0xDC00) := by omega
  have pair : ¬ (0xD800 ≤ n ∧ n < 0xE000) := by omega
  cases rest with
  | nil => simp only [pieceBytes, if_neg pair]
  | cons p rest =>
    cases p with
    | byte b => simp only [pieceBytes, if_neg pair]
    | unit m => rw [pieceBytes, if_neg low, if_neg high]

theorem pieceBytes_reverse {ps : List Piece} (small : ∀ n, .unit n ∈ ps → n < 0x20) (done : Bytes) :
    pieceBytes done ps.reverse = some (ps.flatMap spelt ++ done) := by
  induction ps using List.reverseRecOn generalizing done with
  | nil => rfl
  | append_singleton ps p ih =>
    have before : ∀ n, .unit n ∈ ps → n < 0x20 := fun n mem => small n (List.mem_append_left _ mem)
    rw [List.reverse_append, List.reverse_singleton, List.singleton_append]
    cases p with
    | byte b =>
      rw [pieceBytes, ih before]
      simp [spelt]
    | unit n =>
      rw [pieceBytes_unit (small n (List.mem_append_right _ List.mem_cons_self)), ih before]
      simp [spelt]

theorem unit_mem_pieces {c : Char} {n : Nat} (mem : .unit n ∈ pieces c) : n < 0x20 ∧ n = c.toNat := by
  unfold pieces at mem
  split at mem
  · rename_i control
    cases List.mem_singleton.1 mem
    exact ⟨control.1, rfl⟩
  · simp at mem

theorem spelt_pieces (c : Char) : (pieces c).flatMap spelt = String.utf8EncodeChar c := by
  unfold pieces
  split
  · rw [List.flatMap_singleton, spelt, utf8Of, Char.ofNat_toNat, utf8_eq, String.toList_singleton,
      List.flatMap_singleton]
  · rw [List.flatMap_map]
    exact List.flatMap_singleton' _

theorem stringBody_chars (cs : List Char) (seen : List Piece) (rest : Bytes) :
    stringBody seen ((cs.flatMap escape).flatMap String.utf8EncodeChar ++ 0x22 :: rest) =
      some ((cs.flatMap pieces).reverse ++ seen, rest) := by
  induction cs generalizing seen with
  | nil => rfl
  | cons c cs ih =>
    rw [List.flatMap_cons, List.flatMap_append, List.append_assoc, stringBody_escape, ih]
    simp

theorem pieceBytes_chars (cs : List Char) :
    pieceBytes [] (cs.flatMap pieces).reverse = some (cs.flatMap String.utf8EncodeChar) := by
  rw [pieceBytes_reverse, List.append_nil, List.flatMap_assoc]
  · simp only [spelt_pieces]
  · intro n mem
    obtain ⟨c, _, mem⟩ := List.mem_flatMap.1 mem
    exact (unit_mem_pieces mem).1

theorem utf8_quoted (s : String) : utf8 (quoted s) =
    0x22 :: ((s.toList.flatMap escape).flatMap String.utf8EncodeChar ++ [0x22]) := by
  rw [quoted, utf8_ofList, List.cons_append, List.flatMap_cons, List.flatMap_append]
  rfl

/-- A string that was written is read back. -/
theorem first?_quoted (s : String) (rest : Bytes) :
    Token.first? (utf8 (quoted s) ++ rest) = some (.text (some s), rest) := by
  rw [utf8_quoted, List.cons_append, List.append_assoc, List.singleton_append]
  have body := stringBody_chars s.toList [] rest
  rw [List.append_nil] at body
  simp only [Token.first?, body, Option.map_some, pieceBytes_chars, Option.bind_some, ← utf8_eq,
    ofUtf8?_utf8]

/-! Numbers. -/

def digitBytes (n : Nat) : Bytes := (numeral n).map fun c => UInt8.ofNat c.toNat

theorem utf8_numeral (n : Nat) : utf8 (numeralText n) = digitBytes n := by
  rw [numeralText, utf8_ofList, digitBytes, List.map_eq_flatMap]
  apply List.flatMap_congr
  intro c mem
  have digit := Char.isDigit_iff_toNat.1 (isDigit_of_mem_numeral mem)
  have bounds : (48 : Nat) ≤ c.toNat ∧ c.toNat ≤ 57 := digit
  rcases utf8EncodeChar_cases c with ⟨_, one⟩ | ⟨large, _⟩
  · exact one
  · omega

theorem isDigit_of_mem_digitBytes {n : Nat} {b : UInt8} (mem : b ∈ digitBytes n) :
    isDigit b = true := by
  obtain ⟨c, digit, rfl⟩ := List.mem_map.1 mem
  have bounds : (48 : Nat) ≤ c.toNat ∧ c.toNat ≤ 57 :=
    Char.isDigit_iff_toNat.1 (isDigit_of_mem_numeral digit)
  have value : (UInt8.ofNat c.toNat).toNat = c.toNat :=
    UInt8.toNat_ofNat_of_lt' (Nat.lt_of_le_of_lt bounds.2 (by decide))
  rw [isDigit, Bool.and_eq_true, decide_eq_true_eq, decide_eq_true_eq, UInt8.le_iff_toNat_le,
    UInt8.le_iff_toNat_le, value]
  exact bounds

theorem digitBytes_ne_nil (n : Nat) : digitBytes n ≠ [] := by
  simp [digitBytes, numeral_ne_nil]

/-- What may stand after a number that is whole. -/
def Ends (rest : Bytes) : Prop :=
  ∀ b ∈ rest.head?, isDigit b = false ∧ b ≠ 0x2E ∧ b ≠ 0x65 ∧ b ≠ 0x45

theorem digitRun_append {ds rest : Bytes} (filled : ds ≠ []) (digits : ∀ b ∈ ds, isDigit b = true)
    (ends : Ends rest) : digitRun (ds ++ rest) = some (ds, rest) := by
  have taken : (ds ++ rest).takeWhile isDigit = ds := by
    rw [List.takeWhile_append_of_pos digits]
    cases rest with
    | nil => simp
    | cons b rest => simp [(ends b rfl).1]
  have left : (ds ++ rest).dropWhile isDigit = rest := by
    rw [List.dropWhile_append_of_pos digits]
    cases rest with
    | nil => rfl
    | cons b rest => simp [(ends b rfl).1]
  cases ds with
  | nil => exact absurd rfl filled
  | cons d ds =>
    unfold digitRun
    rw [List.span_eq_takeWhile_dropWhile, taken, left]

theorem fraction_ends {rest : Bytes} (ends : Ends rest) : fraction rest = some ([], rest) := by
  cases rest with
  | nil => rfl
  | cons b rest =>
    have dot := (ends b rfl).2.1
    unfold fraction
    split
    · rename_i same
      cases same
      exact absurd rfl dot
    · rfl

theorem exponent_ends {rest : Bytes} (ends : Ends rest) : exponent rest = some ([], rest) := by
  cases rest with
  | nil => rfl
  | cons b rest =>
    obtain ⟨_, _, small, large⟩ := ends b rfl
    unfold exponent
    split
    · rename_i same
      cases same
      exact absurd rfl small
    · rename_i same
      cases same
      exact absurd rfl large
    · rfl

theorem whole_digitBytes (n : Nat) {rest : Bytes} (ends : Ends rest) :
    whole (digitBytes n ++ rest) = some (digitBytes n, rest) := by
  rcases Nat.eq_zero_or_pos n with rfl | pos
  · rfl
  · have run := digitRun_append (digitBytes_ne_nil n) (fun b => isDigit_of_mem_digitBytes) ends
    unfold whole
    split
    · rename_i same
      have first := head_numeral pos
      rw [digitBytes] at same
      cases shape : numeral n with
      | nil => exact absurd shape (numeral_ne_nil n)
      | cons c cs =>
        have digit := isDigit_of_mem_numeral (shape ▸ List.mem_cons_self : c ∈ numeral n)
        have bounds : (48 : Nat) ≤ c.toNat ∧ c.toNat ≤ 57 := Char.isDigit_iff_toNat.1 digit
        rw [shape, List.map_cons, List.cons_append] at same
        have zero := congrArg UInt8.toNat (List.cons.inj same).1
        rw [UInt8.toNat_ofNat_of_lt' (Nat.lt_of_le_of_lt bounds.2 (by decide))] at zero
        have same : c = '0' := Char.toNat_inj.1 zero
        rw [shape, same] at first
        exact absurd rfl first
    · exact run

theorem numberSpelling?_digitBytes (n : Nat) {rest : Bytes} (ends : Ends rest) :
    numberSpelling? (digitBytes n ++ rest) = some (digitBytes n, rest) := by
  have positive : minus (digitBytes n ++ rest) = some ([], digitBytes n ++ rest) := by
    cases shape : digitBytes n with
    | nil => exact absurd shape (digitBytes_ne_nil n)
    | cons b bs =>
      have digit := isDigit_of_mem_digitBytes (shape ▸ List.mem_cons_self : b ∈ digitBytes n)
      unfold minus
      split
      · rename_i same
        cases same
        exact absurd digit (by decide)
      · rfl
  simp [numberSpelling?, positive, whole_digitBytes n ends, fraction_ends ends, exponent_ends ends]

theorem first?_numeral (n : Nat) {rest : Bytes} (ends : Ends rest) :
    Token.first? (utf8 (numeralText n) ++ rest) = some (.number (numeralText n), rest) := by
  have spelling := numberSpelling?_digitBytes n ends
  have named : ofUtf8? (digitBytes n) = some (numeralText n) := by
    rw [← utf8_numeral, ofUtf8?_utf8]
  have number : Token.first? (digitBytes n ++ rest) = (numberSpelling? (digitBytes n ++ rest)).bind
      fun x => (ofUtf8? x.1).map fun n => (.number n, x.2) := by
    cases shape : digitBytes n with
    | nil => exact absurd shape (digitBytes_ne_nil n)
    | cons b bs =>
      have digit := isDigit_of_mem_digitBytes (shape ▸ List.mem_cons_self : b ∈ digitBytes n)
      unfold Token.first?
      split <;> first | rfl | (rename_i same; cases (List.cons.inj same).1; exact absurd digit (by decide))
  rw [utf8_numeral, number, spelling]
  change (ofUtf8? (digitBytes n)).map _ = _
  rw [named]
  rfl

/-! Tokens. -/

/-- A text that is read as these tokens, whatever was read before. -/
def Reads (s : Bytes) (ts : List Token) : Prop :=
  ∀ seen n, s.length ≤ n → Token.scan seen n s = some (seen.reverse ++ ts)

theorem reads_nil : Reads [] [] := by
  intro seen n _
  cases n <;> simp [Token.scan]

theorem Reads.token {b : UInt8} {s rest : Bytes} {t : Token} {ts : List Token} (reads : Reads rest ts)
    (space : isSpace b = false) (first : Token.first? (b :: s) = some (t, rest))
    (shorter : rest.length ≤ s.length) : Reads (b :: s) (t :: ts) := by
  intro seen n enough
  cases n with
  | zero => simp at enough
  | succ n =>
    rw [List.length_cons] at enough
    have more := reads (t :: seen) n (by omega)
    rw [Token.scan, List.dropWhile_cons, if_neg (by rw [space]; decide)]
    simp only [first, more, List.reverse_cons, List.append_assoc, List.singleton_append]

theorem Reads.quoted {rest : Bytes} {ts : List Token} (reads : Reads rest ts) (s : String) :
    Reads (utf8 (quoted s) ++ rest) (.text (some s) :: ts) := by
  have first := first?_quoted s rest
  rw [utf8_quoted, List.cons_append] at first ⊢
  refine reads.token (by decide) first ?_
  rw [List.length_append]
  exact Nat.le_add_left _ _

theorem Reads.numeral {rest : Bytes} {ts : List Token} (reads : Reads rest ts) (n : Nat)
    (ends : Ends rest) : Reads (utf8 (numeralText n) ++ rest) (.number (numeralText n) :: ts) := by
  have first := first?_numeral n ends
  rw [utf8_numeral] at first ⊢
  cases shape : digitBytes n with
  | nil => exact absurd shape (digitBytes_ne_nil n)
  | cons b bs =>
    rw [shape] at first
    have digit := isDigit_of_mem_digitBytes (shape ▸ List.mem_cons_self : b ∈ digitBytes n)
    refine reads.token ?_ first (by simp)
    cases space : isSpace b with
    | false => rfl
    | true =>
      simp only [isSpace, Bool.or_eq_true, beq_iff_eq] at space
      rcases space with ((rfl | rfl) | rfl) | rfl <;> exact absurd digit (by decide)

/-- A value whose text is one token. -/
def Atom (v : Value) (t : Token) : Prop :=
  ∀ rest ts, Ends rest → Reads rest ts → Reads (utf8 v.compact ++ rest) (t :: ts)

theorem atom_str (s : String) : Atom (.str s) (.text (some s)) := by
  intro rest ts _ reads
  exact reads.quoted s

theorem atom_nat (n : Nat) : Atom (.nat n) (.number (numeralText n)) := by
  intro rest ts ends reads
  exact reads.numeral n ends

def memberTokens : List (String × Token) → List Token
  | [] => []
  | [(name, t)] => [.text (some name), .colon, t]
  | (name, t) :: rest => .text (some name) :: .colon :: t :: .comma :: memberTokens rest

def memberText (name : String) (v : Value) : String := Json.quoted name ++ ":" ++ v.compact

theorem Reads.member {rest : Bytes} {ts : List Token} (reads : Reads rest ts) (ends : Ends rest)
    (name : String) {v : Value} {t : Token} (atom : Atom v t) :
    Reads (utf8 (memberText name v) ++ rest) (.text (some name) :: .colon :: t :: ts) := by
  have colon : utf8 ":" = [0x3A] := by decide +kernel
  rw [memberText, utf8_append, utf8_append, colon, List.append_assoc, List.append_assoc,
    List.singleton_append]
  exact ((atom _ _ ends reads).token (by decide) rfl (Nat.le_refl _)).quoted name

theorem ends_comma (rest : Bytes) : Ends (0x2C :: rest) := by
  intro b head
  cases Option.mem_some_iff.1 head
  decide

theorem Reads.members {rest : Bytes} {ts : List Token} (reads : Reads rest ts) (ends : Ends rest)
    {ms : List (String × Value × Token)} (filled : ms ≠ []) (atoms : ∀ m ∈ ms, Atom m.2.1 m.2.2) :
    Reads (utf8 (String.intercalate "," (ms.map fun m => memberText m.1 m.2.1)) ++ rest)
      (memberTokens (ms.map fun m => (m.1, m.2.2)) ++ ts) := by
  have comma : utf8 "," = [0x2C] := by decide +kernel
  induction ms with
  | nil => exact absurd rfl filled
  | cons m ms ih =>
    have atom := atoms m List.mem_cons_self
    cases ms with
    | nil => simpa [memberTokens] using reads.member ends m.1 atom
    | cons m' ms =>
      have tail := ih (by simp) (fun m mem => atoms m (List.mem_cons_of_mem _ mem))
      have text : String.intercalate "," ((m :: m' :: ms).map fun m => memberText m.1 m.2.1) =
          memberText m.1 m.2.1 ++ "," ++
            String.intercalate "," ((m' :: ms).map fun m => memberText m.1 m.2.1) := by
        rw [List.map_cons, List.map_cons, String.intercalate_cons_cons]
      rw [text, utf8_append, utf8_append, comma, List.append_assoc, List.append_assoc,
        List.singleton_append]
      exact (tail.token (by decide) rfl (Nat.le_refl _)).member (ends_comma _) m.1 atom

/-- A record of one member at least, each of them an atom, is read as its tokens. -/
theorem reads_record {ms : List (String × Value × Token)} (filled : ms ≠ [])
    (atoms : ∀ m ∈ ms, Atom m.2.1 m.2.2) :
    Token.ofBytes? (utf8 (Value.obj (ms.map fun m => (m.1, m.2.1))).compact) =
      some (.openRecord :: memberTokens (ms.map fun m => (m.1, m.2.2)) ++ [.closeRecord]) := by
  have opening : utf8 "\x7b" = [0x7B] := by decide +kernel
  have closing : utf8 "\x7d" = [0x7D] := by decide +kernel
  have texts : Value.compact.memberTexts (ms.map fun m => (some m.1, m.2.1)) =
      ms.map fun m => memberText m.1 m.2.1 := by
    clear filled atoms
    induction ms with
    | nil => rfl
    | cons m ms ih =>
      simp only [List.map_cons, Value.compact.memberTexts, ih]
      rfl
  have ends : Ends [0x7D] := by
    intro b head
    cases Option.mem_some_iff.1 head
    decide
  have last : Reads [0x7D] [.closeRecord] := reads_nil.token (by decide) rfl (Nat.le_refl _)
  have whole : Reads (0x7B :: (utf8 (String.intercalate "," (ms.map fun m => memberText m.1 m.2.1)) ++
      [0x7D])) (.openRecord :: (memberTokens (ms.map fun m => (m.1, m.2.2)) ++ [.closeRecord])) :=
    (last.members ends filled atoms).token (by decide) rfl (Nat.le_refl _)
  have bytes : utf8 (Value.obj (ms.map fun m => (m.1, m.2.1))).compact = 0x7B ::
      (utf8 (String.intercalate "," (ms.map fun m => memberText m.1 m.2.1)) ++ [0x7D]) := by
    simp only [Value.obj, List.map_map, Function.comp_def, Value.compact, texts, utf8_append, opening,
      closing]
    rfl
  rw [Token.ofBytes?, bytes]
  exact whole [] _ (Nat.le_refl _)

end Json

end NetPool
