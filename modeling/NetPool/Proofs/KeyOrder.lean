import NetPool.Proofs.Block.Calls
import NetPool.Proofs.Pin.Earliest
import NetPool.Proofs.Running
import NetPool.Proofs.Slots
import NetPool.Proofs.TextOrder

/-! Keys in the order of their bytes. The keys of a pool stand in the order of the addresses, so what is
read of them are claims in that order. -/

namespace NetPool

open Text

namespace KeyLayout

variable (l : KeyLayout) (pool : String) {a b : Address}

theorem address_lt_ten (a : Address) : a.toNat < 10 ^ 10 := Nat.lt_trans a.toNat_lt (by decide)

theorem fixedKey_lt_iff : l.fixedKey pool a < l.fixedKey pool b ↔ a < b := by
  rw [String.lt_iff_toList_lt, fixedKey, fixedKey, String.toList_append, String.toList_append,
    String.toList_ofList, String.toList_ofList, append_left_lt_iff,
    padded_lt_iff (by decide) (address_lt_ten a) (address_lt_ten b), UInt32.lt_iff_toNat_lt]

/-- Whatever the exponents, the start decides. -/
theorem rangeKey_lt (lt : a < b) (m n : Nat) : l.rangeKey pool a m < l.rangeKey pool b n := by
  rw [String.lt_iff_toList_lt, rangeKey, rangeKey, String.toList_append, String.toList_append,
    String.toList_ofList, String.toList_ofList, append_left_lt_iff]
  have first := address_lt_ten a
  have second := address_lt_ten b
  exact append_lt_append ((length_padded (by decide) first).trans (length_padded (by decide) second).symm)
    ((padded_lt_iff (by decide) first second).2 (UInt32.lt_iff_toNat_lt.1 lt)) _ _

end KeyLayout

namespace Store

/-- What a read of a store comes to: the entries whose keys start with a text, each once, in the order of
the bytes of their keys. -/
structure Finds (s : Store) (start : String) (found : List KeyValue) : Prop where
  read : s.range start = s.reachable.map fun _ => ⟨found, s.revision⟩
  mem : ∀ e, e ∈ found ↔ e ∈ s.entries ∧ startsWith e.key start = true
  ascending : found.Pairwise (utf8 ·.key < utf8 ·.key)

variable {s : Store} {found : List KeyValue}

theorem range_finds (asc : Ascending s.entries) (start : String) :
    s.Finds start (s.entries.filter (startsWith ·.key start)) where
  read := range_eq asc start
  mem _ := List.mem_filter
  ascending := (asc.filter _).imp utf8_lt_iff.2

theorem Finds.unique {start : String} {other : List KeyValue} (available : s.available = true)
    (finds : s.Finds start found) (also : s.Finds start other) : found = other := by
  have read := finds.read.symm.trans also.read
  rw [reachable_eq available] at read
  injection read with read
  injection read

/-- An operation that makes something of what it reads comes to that, unless the store cannot be reached. -/
theorem Finds.run {start : String} (finds : s.Finds start found) {β : Type} (f : Snapshot → β) :
    (Program.ask (.store (.range start)) (Program.onwardStored fun x => .pure (.ok (f x)))).run reply s =
      some ((s.reachable.mapError .store).map fun _ => f ⟨found, s.revision⟩, s) := by
  change (Program.onwardStored (fun x => .pure (.ok (f x))) (s.range start)).run reply s = _
  rw [finds.read]
  cases s.reachable <;> rfl

end Store

section

variable {l : KeyLayout} {pool : String} {s : Store} {found : List KeyValue}

/-- Below the claims of a pool to single addresses stand keys of addresses alone. -/
def PinKeys (l : KeyLayout) (pool : String) (s : Store) : Prop :=
  ∀ e ∈ s.entries, startsWith e.key (l.claimStart .fixed pool) = true → ∃ a, e.key = l.fixedKey pool a

/-- Below the claims of a pool to blocks stand keys of blocks alone, and no two of them of one start. -/
structure BlockKeys (l : KeyLayout) (pool : String) (s : Store) : Prop where
  built : ∀ e ∈ s.entries, startsWith e.key (l.claimStart .range pool) = true →
    ∃ a n, e.key = l.rangeKey pool a n
  starts : ∀ e ∈ s.entries, ∀ f ∈ s.entries, ∀ a m n, e.key = l.rangeKey pool a m →
    f.key = l.rangeKey pool a n → m = n

theorem PinKeys.ascending (keys : PinKeys l pool s) (finds : s.Finds (l.claimStart .fixed pool) found) :
    (decodeClaims (FixedClaim.ofEntry l) found).Pairwise (·.address < ·.address) := by
  refine List.pairwise_filterMap.2 (finds.ascending.imp_of_mem fun {e f} here there lt c read d other => ?_)
  have place {e : KeyValue} (mem : e ∈ found) {c : FixedClaim}
      (read : (FixedClaim.ofEntry l e).toOption = some c) : e.key = l.fixedKey pool c.address := by
    obtain ⟨stored, below⟩ := (finds.mem e).1 mem
    obtain ⟨a, key⟩ := keys e stored below
    obtain ⟨slot, _⟩ := FixedClaim.ofEntry_eq_ok.1 (toOption_eq_some.1 read)
    rw [key] at slot
    rw [key, (KeyLayout.parseFixedKey_fixedKey_eq_some.1 slot).2.2]
  rwa [place here read, place there other, utf8_lt_iff, KeyLayout.fixedKey_lt_iff] at lt

theorem BlockKeys.ascending (keys : BlockKeys l pool s) (finds : s.Finds (l.claimStart .range pool) found) :
    (decodeClaims (RangeClaim.ofEntry l) found).Pairwise (·.range.start < ·.range.start) := by
  refine List.pairwise_filterMap.2 (finds.ascending.imp_of_mem fun {e f} here there lt c read d other => ?_)
  have place {e : KeyValue} (mem : e ∈ found) {c : RangeClaim}
      (read : (RangeClaim.ofEntry l e).toOption = some c) :
      e ∈ s.entries ∧ ∃ n, e.key = l.rangeKey pool c.range.start n := by
    obtain ⟨stored, below⟩ := (finds.mem e).1 mem
    obtain ⟨a, n, key⟩ := keys.built e stored below
    have slot := ofEntry_parse (toOption_eq_some.1 read)
    rw [key] at slot
    exact ⟨stored, n, (KeyLayout.parseRangeKey_rangeKey_eq_some.1 slot).2.2.1 ▸ key⟩
  obtain ⟨stored, m, key⟩ := place here read
  obtain ⟨held, n, other⟩ := place there other
  have order := utf8_lt_iff.1 lt
  rw [UInt32.lt_iff_toNat_lt]
  rcases Nat.lt_trichotomy c.range.start.toNat d.range.start.toNat with less | same | more
  · exact less
  · rw [UInt32.toNat_inj.1 same] at key
    rw [key, other, keys.starts e stored f held _ m n key other] at order
    exact absurd order (String.lt_irrefl _)
  · have turned := KeyLayout.rangeKey_lt l pool (UInt32.lt_iff_toNat_lt.2 more) n m
    rw [← key, ← other] at turned
    exact absurd order (String.lt_asymm turned)

theorem PinAllocator.claims_found (a : PinAllocator)
    (finds : s.Finds (a.layout.claimStart .fixed pool) found) :
    (a.claims pool).outcome.run Store.reply s = some ((s.reachable.mapError .store).map fun _ =>
      decodeClaims (FixedClaim.ofEntry a.layout) found, s) := by
  rw [claims, readClaims, Operation.store_bind]
  exact finds.run fun x => decodeClaims (FixedClaim.ofEntry a.layout) x.entries

/-- Claims that are read in order are not moved by sorting them. -/
theorem BlockAllocator.claims_found (b : BlockAllocator)
    (finds : s.Finds (b.layout.claimStart .range pool) found)
    (ascending : (decodeClaims (RangeClaim.ofEntry b.layout) found).Pairwise (·.range.start < ·.range.start)) :
    (b.claims pool).outcome.run Store.reply s = some ((s.reachable.mapError .store).map fun _ =>
      decodeClaims (RangeClaim.ofEntry b.layout) found, s) := by
  have sorted : (decodeClaims (RangeClaim.ofEntry b.layout) found).mergeSort
      (fun c d => c.range.atMost d.range) = decodeClaims (RangeClaim.ofEntry b.layout) found := by
    refine List.mergeSort_of_pairwise (ascending.imp fun {c d} lt => ?_)
    exact Search.atMost_of_start_lt (UInt32.lt_iff_toNat_lt.1 lt)
  rw [claims, Operation.readClaims_bind, ← sorted]
  exact finds.run fun x => (decodeClaims (RangeClaim.ofEntry b.layout) x.entries).mergeSort
    fun c d => c.range.atMost d.range

/-- A read finds the entries whose keys start with a text, each once, in the order of the bytes of their
keys. In that order stand the keys of addresses as the addresses, and the keys of blocks as their starts,
whatever the name of the pool. So where such keys alone stand below a pool, its claims are read in strictly
ascending order, and sorting them leaves them as they were read. -/
theorem claims_read_in_order (l : KeyLayout) (pool : String) {s : Store} (asc : Store.Ascending s.entries) :
    (∀ start, ∃ found, s.Finds start found) ∧
    (∀ a b, utf8 (l.fixedKey pool a) < utf8 (l.fixedKey pool b) ↔ a < b) ∧
    (∀ a b m n, a < b → utf8 (l.rangeKey pool a m) < utf8 (l.rangeKey pool b n)) ∧
    (PinKeys l pool s → ∃ found, s.Finds (l.claimStart .fixed pool) found ∧
      (decodeClaims (FixedClaim.ofEntry l) found).Pairwise (·.address < ·.address) ∧
      ∀ retry, (PinAllocator.claims ⟨l, retry⟩ pool).outcome.run Store.reply s =
        some ((s.reachable.mapError .store).map fun _ => decodeClaims (FixedClaim.ofEntry l) found, s)) ∧
    (BlockKeys l pool s → ∃ found, s.Finds (l.claimStart .range pool) found ∧
      (decodeClaims (RangeClaim.ofEntry l) found).Pairwise (·.range.start < ·.range.start) ∧
      ∀ retry cached, (BlockAllocator.claims ⟨l, retry, cached⟩ pool).outcome.run Store.reply s =
        some ((s.reachable.mapError .store).map fun _ => decodeClaims (RangeClaim.ofEntry l) found, s)) := by
  have reads := Store.range_finds asc
  refine ⟨fun start => ⟨_, reads start⟩, fun a b => utf8_lt_iff.trans (l.fixedKey_lt_iff pool),
    fun a b m n lt => utf8_lt_iff.2 (l.rangeKey_lt pool lt m n), fun keys => ?_, fun keys => ?_⟩
  · have ascending := keys.ascending (reads _)
    exact ⟨_, reads _, ascending, fun retry => PinAllocator.claims_found ⟨l, retry⟩ (reads _)⟩
  · have ascending := keys.ascending (reads _)
    exact ⟨_, reads _, ascending, fun retry cached =>
      BlockAllocator.claims_found ⟨l, retry, cached⟩ (reads _) ascending⟩

end

/-! A store into which claims were written in another order, and something that is no claim. -/

/-- A store with values under the keys of slots of one pool. -/
def stocked (l : KeyLayout) (pool : String) (stock : List (Slot × Bytes)) : Store :=
  stock.foldr (fun x s => s.write (l.slotKey pool x.1) x.2) (.empty 100)

section

variable {l : KeyLayout} {pool : String} {stock : List (Slot × Bytes)}

theorem stocked_ascending : Store.Ascending (stocked l pool stock).entries := by
  induction stock with
  | nil => exact .nil
  | cons x stock ih => exact Store.write_ascending ih _ _

theorem slot_of_stocked {e : KeyValue} (mem : e ∈ (stocked l pool stock).entries) :
    ∃ x ∈ stock, e.key = l.slotKey pool x.1 := by
  induction stock with
  | nil => cases mem
  | cons x stock ih =>
    rcases (Store.mem_write stocked_ascending).1 mem with rfl | ⟨mem, _⟩
    · exact ⟨x, List.mem_cons_self, rfl⟩
    · obtain ⟨y, there, key⟩ := ih mem
      exact ⟨y, List.mem_cons_of_mem _ there, key⟩

/-- Keys of slots are told apart by their kind. -/
theorem stocked_pinKeys (plain : '/' ∉ pool.toList) : PinKeys l pool (stocked l pool stock) := by
  intro e mem below
  obtain ⟨⟨slot, value⟩, _, key⟩ := slot_of_stocked mem
  rw [key] at below ⊢
  have kind := ((KeyLayout.startsWith_slotKey plain plain).1 below).1
  cases slot with
  | fixed a => exact ⟨a, rfl⟩
  | block | subnet | endpoint => cases kind

theorem block_of_slotKey (plain : '/' ∉ pool.toList) {slot : Slot} {a : Address} {n : Nat}
    (key : l.slotKey pool slot = l.rangeKey pool a n) :
    ∃ b, slot = .block b ∧ b.start = a ∧ b.exponent = n := by
  have below : startsWith (l.slotKey pool slot) (l.claimStart .range pool) = true :=
    key ▸ startsWith_append _ _
  have kind := ((KeyLayout.startsWith_slotKey plain plain).1 below).1
  cases slot with
  | block b => exact ⟨b, rfl, KeyLayout.rangeKey_inj key⟩
  | subnet | fixed | endpoint => cases kind

theorem stocked_blockKeys (plain : '/' ∉ pool.toList)
    (starts : ∀ b c, .block b ∈ stock.map Prod.fst → .block c ∈ stock.map Prod.fst →
      b.start = c.start → b.exponent = c.exponent) : BlockKeys l pool (stocked l pool stock) where
  built e mem below := by
    obtain ⟨⟨slot, value⟩, _, key⟩ := slot_of_stocked mem
    rw [key] at below ⊢
    have kind := ((KeyLayout.startsWith_slotKey plain plain).1 below).1
    cases slot with
    | block b => exact ⟨b.start, b.exponent, rfl⟩
    | subnet | fixed | endpoint => cases kind
  starts e here f there a m n first second := by
    obtain ⟨x, held, key⟩ := slot_of_stocked here
    obtain ⟨y, stored, other⟩ := slot_of_stocked there
    obtain ⟨b, block, rfl, rfl⟩ := block_of_slotKey plain (key.symm.trans first)
    obtain ⟨c, beside, start, rfl⟩ := block_of_slotKey plain (other.symm.trans second)
    exact starts b c (block ▸ List.mem_map_of_mem held) (beside ▸ List.mem_map_of_mem stored) start.symm

end

/-- Two pins and two blocks, each pair written in the other order, and garbage under the key of an address. -/
def shuffled : List (Slot × Bytes) :=
  [(.fixed 9, PinPool.record "me" "web"), (.fixed 11, utf8 "garbage"), (.fixed 10, PinPool.record "me" "db"),
    (.block ⟨8, 3, by decide⟩, (ClaimRecord.ofOwner "me").encode),
    (.block ⟨16, 4, by decide⟩, (ClaimRecord.ofOwner "me").encode)]

theorem shuffled_blockKeys : BlockKeys .standard "green" (stocked .standard "green" shuffled) := by
  refine stocked_blockKeys (by decide) fun b c left right => ?_
  simp only [shuffled, List.map_cons, List.map_nil, List.mem_cons, List.not_mem_nil, or_false, reduceCtorEq,
    false_or, Slot.block.injEq] at left right
  rcases left with rfl | rfl <;> rcases right with rfl | rfl <;> decide

/-- What a read below the claims to single addresses, or to blocks, finds of them. -/
def shuffledFound (kind : PoolKind) : List KeyValue :=
  (stocked .standard "green" shuffled).entries.filter
    (startsWith ·.key (KeyLayout.standard.claimStart kind "green"))

theorem shuffled_found {kind : PoolKind} {found : List KeyValue}
    (finds : (stocked .standard "green" shuffled).Finds (KeyLayout.standard.claimStart kind "green") found) :
    found = shuffledFound kind :=
  finds.unique rfl (Store.range_finds stocked_ascending _)

theorem shuffled_read_in_order :
    Store.Ascending (stocked .standard "green" shuffled).entries ∧
    PinKeys .standard "green" (stocked .standard "green" shuffled) ∧
    BlockKeys .standard "green" (stocked .standard "green" shuffled) ∧
    (PinAllocator.claims ⟨.standard, ⟨5, 20⟩⟩ "green").outcome.run Store.reply
      (stocked .standard "green" shuffled) =
        some (.ok [⟨"green", 9, "me", "web"⟩, ⟨"green", 10, "me", "db"⟩],
          stocked .standard "green" shuffled) ∧
    (BlockAllocator.claims ⟨.standard, ⟨3, 100⟩, true⟩ "green").outcome.run Store.reply
      (stocked .standard "green" shuffled) =
        some (.ok [⟨"green", ⟨8, 15, by decide⟩, "me"⟩, ⟨"green", ⟨16, 31, by decide⟩, "me"⟩],
          stocked .standard "green" shuffled) := by
  have ascending : Store.Ascending (stocked .standard "green" shuffled).entries := stocked_ascending
  have pinKeys : PinKeys .standard "green" (stocked .standard "green" shuffled) :=
    stocked_pinKeys (by decide)
  obtain ⟨_, _, _, pins, blocks⟩ := claims_read_in_order .standard "green" ascending
  obtain ⟨pinned, pinFinds, _, pinRun⟩ := pins pinKeys
  obtain ⟨blocked, blockFinds, _, blockRun⟩ := blocks shuffled_blockKeys
  rw [shuffled_found pinFinds] at pinRun
  rw [shuffled_found blockFinds] at blockRun
  refine ⟨ascending, pinKeys, shuffled_blockKeys, ?_, ?_⟩
  · have decoded : decodeClaims (FixedClaim.ofEntry .standard) (shuffledFound .fixed) =
        [⟨"green", 9, "me", "web"⟩, ⟨"green", 10, "me", "db"⟩] := by decide +kernel
    rw [← decoded]
    exact pinRun _
  · have decoded : decodeClaims (RangeClaim.ofEntry .standard) (shuffledFound .range) =
        [⟨"green", ⟨8, 15, by decide⟩, "me"⟩, ⟨"green", ⟨16, 31, by decide⟩, "me"⟩] := by decide +kernel
    rw [← decoded]
    exact blockRun _ _

end NetPool
