import Mathlib.Data.List.Perm.Subperm
import NetPool.Proofs.Block.Alone
import NetPool.Proofs.Pool
import NetPool.Proofs.Search

/-! Blocks of one pool lie side by side. First fit is nowhere told to align them, but as all of them have
one size, what is found first from the first candidate on is a whole number of blocks away from it; so
what is given back leaves a gap for whole blocks, and space runs out only when all of them are claimed. -/

namespace NetPool

namespace Pool

/-- So many blocks fit side by side from the first candidate on. -/
def capacity (p : Pool) : Nat :=
  (p.bounds.stop.toNat - p.firstCandidate.toNat + 1) / p.blockSize.toNat

/-- The addresses of the block that lies `k` blocks past the first candidate. -/
def tile (p : Pool) (k : Nat) : AddressRange :=
  .span (UInt64.ofNat (p.firstCandidate.toNat + k * p.blockSize.toNat))
    (UInt64.ofNat (p.firstCandidate.toNat + k * p.blockSize.toNat + p.blockSize.toNat - 1))

/-- A pool of blocks as it is configured. -/
structure Tileable (p : Pool) : Prop where
  named : KeyLayout.Named p.name
  kind : p.kind = .range
  exponent : p.blockExp ≤ 32
  size : p.blockSize.toNat = 2 ^ p.blockExp
  first : p.bounds.start.toNat ≤ p.firstCandidate.toNat
  room : p.firstCandidate.toNat ≤ p.bounds.stop.toNat

theorem ofConfig_tileable {c : PoolConfig} {p : Pool} (made : ofConfig c = .ok p)
    (kind : p.kind = .range) : p.Tileable where
  named := ofConfig_named made
  kind := kind
  exponent := ofConfig_blockExp_le made
  size := blockSize_toNat kind (ofConfig_blockExp_le made)
  first := by
    rw [p.firstCandidate_toNat]
    exact Nat.le_add_right _ _
  room := by
    have le := UInt64.le_iff_toNat_le.1 (ofConfig_configured made).candidate
    rwa [UInt32.toNat_toUInt64] at le

variable {p : Pool} {j k : Nat}

/-- A block ends in bounds exactly if it is one of those that fit. -/
theorem Tileable.lt_capacity_iff (t : p.Tileable) : k < p.capacity ↔
    p.firstCandidate.toNat + k * p.blockSize.toNat + p.blockSize.toNat ≤ p.bounds.stop.toNat + 1 := by
  have room := t.room
  rw [capacity, ← Nat.add_one_le_iff, Nat.le_div_iff_mul_le p.blockSize_pos, Nat.succ_mul]
  omega

theorem Tileable.tile_toNat (t : p.Tileable) (lt : k < p.capacity) :
    (p.tile k).start.toNat = p.firstCandidate.toNat + k * p.blockSize.toNat ∧
      (p.tile k).stop.toNat =
        p.firstCandidate.toNat + k * p.blockSize.toNat + p.blockSize.toNat - 1 := by
  have within := t.lt_capacity_iff.1 lt
  have stop := p.bounds.stop.toNat_lt
  have pos := p.blockSize_pos
  have word {n : Nat} (small : n < 4294967296) : (UInt64.ofNat n).toNat = n := by
    rw [UInt64.toNat_ofNat']
    exact Nat.mod_eq_of_lt (Nat.lt_trans small (by decide))
  have first := word (n := p.firstCandidate.toNat + k * p.blockSize.toNat) (by omega)
  have last := word
    (n := p.firstCandidate.toNat + k * p.blockSize.toNat + p.blockSize.toNat - 1) (by omega)
  obtain ⟨start, stop⟩ := AddressRange.span_eq
    (a := UInt64.ofNat (p.firstCandidate.toNat + k * p.blockSize.toNat))
    (b := UInt64.ofNat (p.firstCandidate.toNat + k * p.blockSize.toNat + p.blockSize.toNat - 1))
    (by rw [UInt64.le_iff_toNat_le, first, last]; omega) (by omega)
  exact ⟨start.trans first, stop.trans last⟩

theorem Tileable.tile_size (t : p.Tileable) (lt : k < p.capacity) :
    (p.tile k).size.toNat = p.blockSize.toNat := by
  obtain ⟨start, stop⟩ := t.tile_toNat lt
  have pos := p.blockSize_pos
  rw [AddressRange.size_toNat]
  omega

theorem Tileable.tile_block (t : p.Tileable) (lt : k < p.capacity) : p.Block (p.tile k) := by
  have within := t.lt_capacity_iff.1 lt
  obtain ⟨start, stop⟩ := t.tile_toNat lt
  exact ⟨t.tile_size lt, by omega, by omega⟩

/-- Blocks side by side share nothing. -/
theorem Tileable.tiles_apart (t : p.Tileable) (hj : j < p.capacity) (hk : k < p.capacity) (ne : j ≠ k) :
    (p.tile j).overlaps (p.tile k) = false := by
  have pos := p.blockSize_pos
  have less {i n : Nat} (hi : i < p.capacity) (hn : n < p.capacity) (lt : i < n) :
      (p.tile i).stop.toNat < (p.tile n).start.toNat := by
    have step := Nat.mul_le_mul_right p.blockSize.toNat (Nat.succ_le_of_lt lt)
    rw [Nat.succ_mul] at step
    rw [(t.tile_toNat hi).2, (t.tile_toNat hn).1]
    omega
  rw [Search.not_overlaps_iff]
  rcases Nat.lt_or_gt_of_ne ne with lt | gt
  · exact .inl (less hj hk lt)
  · exact .inr (less hk hj gt)

theorem Tileable.tile_inj (t : p.Tileable) (hj : j < p.capacity) (hk : k < p.capacity)
    (same : p.tile j = p.tile k) : j = k := by
  refine Decidable.byContradiction fun ne => ?_
  have apart := t.tiles_apart hj hk ne
  rw [same, AddressRange.overlaps_self] at apart
  cases apart

/-- A block anywhere in bounds overlaps a tile that starts no later. -/
theorem Tileable.exists_tile (t : p.Tileable) {r : AddressRange} (block : p.Block r) :
    ∃ k < p.capacity, r.overlaps (p.tile k) = true ∧ (p.tile k).start.toNat ≤ r.start.toNat := by
  obtain ⟨size, low, high⟩ := block
  have pos := p.blockSize_pos
  have ordered := r.start_le
  rw [AddressRange.size_toNat] at size
  have split := Nat.div_add_mod' (r.start.toNat - p.firstCandidate.toNat) p.blockSize.toNat
  have short := Nat.mod_lt (r.start.toNat - p.firstCandidate.toNat) pos
  have lt : (r.start.toNat - p.firstCandidate.toNat) / p.blockSize.toNat < p.capacity :=
    t.lt_capacity_iff.2 (by omega)
  obtain ⟨start, stop⟩ := t.tile_toNat lt
  exact ⟨_, lt, AddressRange.overlaps_iff.2 ⟨by omega, by omega⟩, by omega⟩

/-- Among tiles, first fit finds a tile that is free, as long as there is one. -/
theorem Tileable.firstFit_cases (t : p.Tileable) {claimed : List AddressRange}
    (tiled : ∀ r ∈ claimed, ∃ k < p.capacity, r = p.tile k) :
    (Search.firstFit p.bounds p.firstCandidate p.blockSize claimed = none ∧
        ∀ k < p.capacity, p.tile k ∈ claimed) ∨
      ∃ k < p.capacity, p.tile k ∉ claimed ∧
        Search.firstFit p.bounds p.firstCandidate p.blockSize claimed = some (p.tile k) := by
  -- A tile that is not claimed is free, so what is found starts no later.
  have least {k : Nat} (lt : k < p.capacity) (free : p.tile k ∉ claimed) :
      ∃ q, Search.firstFit p.bounds p.firstCandidate p.blockSize claimed = some q ∧
        q.start.toNat ≤ (p.tile k).start.toNat := by
    refine firstFit_before (t.tile_block lt) fun r mem => ?_
    obtain ⟨j, hj, rfl⟩ := tiled r mem
    exact t.tiles_apart lt hj fun same => free (same ▸ mem)
  cases found : Search.firstFit p.bounds p.firstCandidate p.blockSize claimed with
  | none =>
    refine .inl ⟨rfl, fun k lt => Decidable.byContradiction fun free => ?_⟩
    obtain ⟨q, fit, _⟩ := least lt free
    rw [found] at fit
    cases fit
  | some r =>
    obtain ⟨block, clear⟩ := firstFit_block found
    obtain ⟨k, lt, shared, before⟩ := t.exists_tile block
    have free : p.tile k ∉ claimed := by
      intro mem
      rw [clear _ mem] at shared
      cases shared
    obtain ⟨q, fit, after⟩ := least lt free
    cases Option.some.inj (found.symm.trans fit)
    have same : r = p.tile k := AddressRange.eq_of_start_size
      (UInt32.toNat_inj.1 (Nat.le_antisymm after before)) (block.size.trans (t.tile_size lt).symm)
    exact .inr ⟨k, lt, free, congrArg some same⟩

end Pool

namespace BlockAllocator

/-- Each entry below the start of a pool's keys is a claim to a tile. -/
structure Tiled (l : KeyLayout) (p : Pool) (s : Store) : Prop where
  quiet : Quiet l p.name s
  tiles : ∀ e ∈ s.entries, startsWith e.key (l.claimStart .range p.name) = true →
    ∃ k < p.capacity, ∃ owner, l.rangeKeyFor p.name (p.tile k) = some e.key ∧
      e.value = (ClaimRecord.ofOwner owner).encode

variable {a : BlockAllocator} {l : KeyLayout} {p : Pool} {s u : Store}
  {claim : RangeClaim} {j k : Nat}

/-- The key under which a tile is claimed is the one that is deleted when it is given back. -/
theorem tile_slot (t : p.Tileable) (lt : k < p.capacity) : l.rangeKeyFor p.name (p.tile k) =
    some (l.rangeKey p.name (p.tile k).start p.blockExp) :=
  KeyLayout.rangeKeyFor_eq_some.2 ⟨p.blockExp, rfl, (t.tile_size lt).trans t.size, t.exponent⟩

/-- A live claim is to a tile, under the key of the tile. -/
theorem Tiled.of_live (tiled : Tiled l p s) (t : p.Tileable) (mem : claim ∈ live l p.name s) :
    ∃ k < p.capacity, claim.range = p.tile k ∧ claim.pool = p.name ∧ ∃ x ∈ s.entries,
      l.rangeKeyFor p.name (p.tile k) = some x.key ∧
        RangeClaim.ofEntry l x = .ok claim := by
  obtain ⟨x, there, below, read⟩ := mem_live.1 mem
  obtain ⟨k, lt, owner, slot, value⟩ := tiled.tiles x there below
  cases read.symm.trans (RangeClaim.ofEntry_owned t.named slot value).2
  exact ⟨k, lt, rfl, rfl, x, there, slot, read⟩

theorem Tiled.ranges (tiled : Tiled l p s) (t : p.Tileable) {r : AddressRange}
    (mem : r ∈ (live l p.name s).map (·.range)) : ∃ k < p.capacity, r = p.tile k := by
  obtain ⟨claim, there, rfl⟩ := List.mem_map.1 mem
  obtain ⟨k, lt, tile, _⟩ := tiled.of_live t there
  exact ⟨k, lt, tile⟩

/-- A tile that nobody claims has no entry. -/
theorem Tiled.absent (tiled : Tiled l p s) (t : p.Tileable) (lt : k < p.capacity)
    (free : p.tile k ∉ (live l p.name s).map (·.range)) :
    s.find? (l.rangeKey p.name (p.tile k).start p.blockExp) = none := by
  cases found : s.find? (l.rangeKey p.name (p.tile k).start p.blockExp) with
  | none => rfl
  | some x =>
    obtain ⟨there, key⟩ := (Store.find?_eq_some_iff tiled.quiet.serving.ascending).1 found
    have below : startsWith x.key (l.claimStart .range p.name) = true := by
      rw [key]
      exact startsWith_append _ _
    obtain ⟨j, hj, owner, slot, value⟩ := tiled.tiles x there below
    have same : p.tile j = p.tile k := by
      rw [key] at slot
      exact KeyLayout.rangeKeyFor_inj slot (tile_slot t lt)
    have live := mem_live.2 ⟨x, there, RangeClaim.ofEntry_owned t.named slot value⟩
    exact absurd (List.mem_map.2 ⟨_, live, same⟩) free

theorem Tiled.apart (tiled : Tiled l p s) (t : p.Tileable) :
    Apart ((live l p.name s).map (·.range)) := by
  have asc := tiled.quiet.serving.ascending
  refine (apart_decoded (asc.filter _)).2 fun x hx y hy ne c c' readX readY => ?_
  obtain ⟨hx, belowX⟩ := List.mem_filter.1 hx
  obtain ⟨hy, belowY⟩ := List.mem_filter.1 hy
  obtain ⟨j, hj, _, slotX, valueX⟩ := tiled.tiles x hx belowX
  obtain ⟨k, hk, _, slotY, valueY⟩ := tiled.tiles y hy belowY
  cases readX.symm.trans (RangeClaim.ofEntry_owned t.named slotX valueX).2
  cases readY.symm.trans (RangeClaim.ofEntry_owned t.named slotY valueY).2
  refine t.tiles_apart hj hk ?_
  rintro rfl
  exact ne (asc.eq_of_key hx hy (Option.some.inj (slotX.symm.trans slotY)))

/-- As many claims as there are tiles leave no tile free. -/
theorem Tiled.full_iff (tiled : Tiled l p s) (t : p.Tileable) :
    (live l p.name s).length = p.capacity ↔
      ∀ k < p.capacity, p.tile k ∈ (live l p.name s).map (·.range) := by
  have once : ((List.range p.capacity).map p.tile).Nodup := by
    refine List.pairwise_map.2 (List.nodup_range.imp_of_mem fun hj hk ne same => ne ?_)
    exact t.tile_inj (List.mem_range.1 hj) (List.mem_range.1 hk) same
  have among : (live l p.name s).map (·.range) ⊆ (List.range p.capacity).map p.tile := by
    intro r mem
    obtain ⟨k, lt, rfl⟩ := tiled.ranges t mem
    exact List.mem_map_of_mem (List.mem_range.2 lt)
  have fewer := List.subperm_of_subset (tiled.apart t).nodup among
  constructor
  · intro count k lt
    have all := fewer.perm_of_length_le (by simp [count])
    exact all.mem_iff.2 (List.mem_map_of_mem (List.mem_range.2 lt))
  · intro all
    have every : (List.range p.capacity).map p.tile ⊆ (live l p.name s).map (·.range) := by
      intro r mem
      obtain ⟨k, lt, rfl⟩ := List.mem_map.1 mem
      exact all k (List.mem_range.1 lt)
    have le := fewer.length_le
    have ge := (List.subperm_of_subset once every).length_le
    simp only [List.length_map, List.length_range] at le ge
    exact Nat.le_antisymm le ge

/-- The claim to a tile that was free is one more live claim. -/
theorem Tiled.write (tiled : Tiled l p s) (t : p.Tileable) (lt : k < p.capacity)
    (free : p.tile k ∉ (live l p.name s).map (·.range)) (owner : String) (quiet : Quiet l p.name u)
    (entries : u.entries = (s.write (l.rangeKey p.name (p.tile k).start p.blockExp)
      (ClaimRecord.ofOwner owner).encode).entries) :
    Tiled l p u ∧ ∀ c, c ∈ live l p.name u ↔ c = ⟨p.name, p.tile k, owner⟩ ∨ c ∈ live l p.name s := by
  have asc := tiled.quiet.serving.ascending
  have absent := tiled.absent t lt free
  let new : KeyValue := s.written (l.rangeKey p.name (p.tile k).start p.blockExp)
    (ClaimRecord.ofOwner owner).encode
  have placed : startsWith new.key (l.claimStart .range p.name) = true ∧
      RangeClaim.ofEntry l new = .ok ⟨p.name, p.tile k, owner⟩ :=
    RangeClaim.ofEntry_owned t.named (tile_slot t lt) rfl
  have mem {x : KeyValue} : x ∈ u.entries ↔ x = new ∨ x ∈ s.entries := by
    rw [entries, Store.mem_write asc]
    refine or_congr_right (and_iff_left_of_imp fun there same => ?_)
    rw [(Store.find?_eq_some_iff asc).2 ⟨there, same⟩] at absent
    cases absent
  refine ⟨⟨quiet, fun x there below => ?_⟩, fun c => ?_⟩
  · rcases mem.1 there with rfl | old
    · exact ⟨k, lt, owner, tile_slot t lt, rfl⟩
    · exact tiled.tiles x old below
  · rw [mem_live, mem_live]
    constructor
    · rintro ⟨x, there, below, read⟩
      rcases mem.1 there with rfl | old
      · exact .inl (Except.ok.inj (read.symm.trans placed.2))
      · exact .inr ⟨x, old, below, read⟩
    · rintro (rfl | ⟨x, old, read⟩)
      · exact ⟨_, mem.2 (.inl rfl), placed⟩
      · exact ⟨x, mem.2 (.inr old), read⟩

/-- With its entry gone a claim is not live any more, and all others are. -/
theorem Tiled.erase (tiled : Tiled l p s) (t : p.Tileable) {entry : KeyValue} (there : entry ∈ s.entries)
    (slot : l.rangeKeyFor p.name claim.range = some entry.key)
    (read : RangeClaim.ofEntry l entry = .ok claim) (quiet : Quiet l p.name u)
    (entries : u.entries = (s.erase entry).entries) :
    Tiled l p u ∧ ∀ c, c ∈ live l p.name u ↔ c ∈ live l p.name s ∧ c ≠ claim := by
  have mem {x : KeyValue} : x ∈ u.entries ↔ x ∈ s.entries ∧ x.key ≠ entry.key := by
    rw [entries, Store.mem_erase]
  refine ⟨⟨quiet, fun x stays below => tiled.tiles x (mem.1 stays).1 below⟩, fun c => ?_⟩
  rw [mem_live, mem_live]
  constructor
  · rintro ⟨x, stays, below, itsRead⟩
    obtain ⟨old, other⟩ := mem.1 stays
    refine ⟨⟨x, old, below, itsRead⟩, ?_⟩
    -- An entry that is read as this claim stands under the key of the same tile.
    rintro rfl
    obtain ⟨j, hj, _, itsSlot, value⟩ := tiled.tiles x old below
    cases itsRead.symm.trans (RangeClaim.ofEntry_owned t.named itsSlot value).2
    exact other (Option.some.inj (itsSlot.symm.trans slot))
  · rintro ⟨⟨x, old, below, itsRead⟩, ne⟩
    refine ⟨x, mem.2 ⟨old, fun same => ne ?_⟩, below, itsRead⟩
    cases tiled.quiet.serving.ascending.eq_of_key old there same
    exact Except.ok.inj (itsRead.symm.trans read)

/-- What becomes of an allocation: space has run out if all tiles are claimed, or else one more is. -/
theorem Tiled.allocate (tiled : Tiled a.layout p s) (t : p.Tileable) (tries : 0 < a.retry.attempts)
    (cache : RangeCache) (files : FileTree) (owner : String) :
    ∃ x f, (a.allocate p owner).outcome.run (Desk.reply cache) ⟨s, files⟩ = some (x, f) ∧
      Tiled a.layout p f.store ∧
      if (live a.layout p.name s).length = p.capacity then
        x = .error (.capacityExhausted p.name p.blockSize) ∧
          live a.layout p.name f.store = live a.layout p.name s
      else ∃ claim, x = .ok claim ∧ claim ∉ live a.layout p.name s ∧
        ∀ c, c ∈ live a.layout p.name f.store ↔ c = claim ∨ c ∈ live a.layout p.name s := by
  have listed (r : AddressRange) : r ∈ a.listed (entriesOf a.layout p.name s) ↔
      r ∈ (live a.layout p.name s).map (·.range) := by
    rw [mem_listed, List.mem_map]
    rfl
  rcases t.firstFit_cases fun r mem => tiled.ranges t ((listed r).1 mem) with
    ⟨none, all⟩ | ⟨k, lt, free, found⟩
  · have full := (tiled.full_iff t).2 fun k lt => (listed _).1 (all k lt)
    obtain ⟨f, run, quiet, entries⟩ :=
      allocate_full (d := ⟨s, files⟩) t.kind tries cache tiled.quiet owner none
    refine ⟨_, f, run, ⟨quiet, by rw [entries]; exact tiled.tiles⟩, ?_⟩
    rw [if_pos full, live, entriesOf, entries]
    exact ⟨rfl, rfl⟩
  · replace free := mt (listed _).2 free
    have more : (live a.layout p.name s).length ≠ p.capacity := fun full =>
      free ((tiled.full_iff t).1 full k lt)
    obtain ⟨f, run, quiet, entries⟩ :=
      allocate_placed (d := ⟨s, files⟩) t.kind tries cache tiled.quiet owner found (tiled.absent t lt free)
    obtain ⟨after, one⟩ := tiled.write t lt free owner quiet entries
    refine ⟨_, f, run, after, ?_⟩
    rw [if_neg more]
    exact ⟨_, rfl, fun there => free (List.mem_map.2 ⟨_, there, rfl⟩), one⟩

/-- A live claim that is given back is gone, and no other. -/
theorem Tiled.release (tiled : Tiled a.layout p s) (t : p.Tileable) (cache : RangeCache)
    (files : FileTree) (held : claim ∈ live a.layout p.name s) :
    ∃ f, (a.release claim).run (Desk.reply cache) ⟨s, files⟩ = some ((), f) ∧ Tiled a.layout p f.store ∧
      ∀ c, c ∈ live a.layout p.name f.store ↔ c ∈ live a.layout p.name s ∧ c ≠ claim := by
  obtain ⟨k, lt, range, pool, entry, there, slot, read⟩ := tiled.of_live t held
  rw [← range] at slot
  have found : s.find? entry.key = some entry :=
    (Store.find?_eq_some_iff tiled.quiet.serving.ascending).2 ⟨there, rfl⟩
  obtain ⟨f, run, quiet, entries⟩ := release_run (d := ⟨s, files⟩) cache (pool.symm ▸ tiled.quiet)
    (pool.symm ▸ slot) found
  rw [pool] at quiet
  exact ⟨f, run, tiled.erase t there slot read quiet entries⟩

/-- What calls on a pool, one after the other, make of a store: blocks are claimed for anybody, and
claims that the store holds are given back. Each call may be made by another node. -/
inductive Worked (l : KeyLayout) (p : Pool) (s : Store) : Store → Prop
  | start : Worked l p s s
  | allocate {t : Store} {a : BlockAllocator} {cache : RangeCache} {files : FileTree} {owner : String}
      {x : Except Failure RangeClaim} {f : Desk} (before : Worked l p s t) (layout : a.layout = l)
      (tries : 0 < a.retry.attempts)
      (run : (a.allocate p owner).outcome.run (Desk.reply cache) ⟨t, files⟩ = some (x, f)) :
      Worked l p s f.store
  | release {t : Store} {a : BlockAllocator} {cache : RangeCache} {files : FileTree}
      {claim : RangeClaim} {f : Desk} (before : Worked l p s t) (layout : a.layout = l)
      (held : claim ∈ live l p.name t)
      (run : (a.release claim).run (Desk.reply cache) ⟨t, files⟩ = some ((), f)) : Worked l p s f.store

theorem Worked.tiled (worked : Worked l p s u) (t : p.Tileable) (start : Tiled l p s) : Tiled l p u := by
  induction worked with
  | start => exact start
  | allocate before layout tries run tiled =>
    subst layout
    obtain ⟨x, f, same, after, _⟩ := tiled.allocate t tries _ _ _
    cases same.symm.trans run
    exact after
  | release before layout held run tiled =>
    subst layout
    obtain ⟨f, same, after, _⟩ := tiled.release t _ _ held
    cases same.symm.trans run
    exact after

/-- From an empty pool on, whatever has been claimed and given back: a live claim starts a whole number
of blocks past the first candidate. An allocation comes back with space exhausted exactly if there are
as many live claims as blocks fit into the pool side by side, and otherwise with one more claim. -/
theorem blocks_never_fragment {c : PoolConfig} {p : Pool} (made : Pool.ofConfig c = .ok p)
    (kind : p.kind = .range) {l : KeyLayout} {s t : Store} (serving : s.Serving)
    (free : s.isLocked (l.mutex .range p.name) = false)
    (empty : ∀ x ∈ s.entries, startsWith x.key (l.claimStart .range p.name) = false)
    (worked : Worked l p s t) :
    (∀ claim ∈ live l p.name t, ∃ k,
      claim.range.start.toNat = p.firstCandidate.toNat + k * p.blockSize.toNat) ∧
    (∀ (a : BlockAllocator), a.layout = l → 0 < a.retry.attempts → ∀ cache files owner, ∃ x f,
      (a.allocate p owner).outcome.run (Desk.reply cache) ⟨t, files⟩ = some (x, f) ∧
        if (live l p.name t).length =
            (p.bounds.stop.toNat - p.firstCandidate.toNat + 1) / p.blockSize.toNat then
          x = .error (.capacityExhausted p.name p.blockSize) ∧ live l p.name f.store = live l p.name t
        else ∃ claim, x = .ok claim ∧ claim ∉ live l p.name t ∧
          ∀ c, c ∈ live l p.name f.store ↔ c = claim ∨ c ∈ live l p.name t) ∧
    ∀ (a : BlockAllocator), a.layout = l → ∀ cache files, ∀ claim ∈ live l p.name t, ∃ f,
      (a.release claim).run (Desk.reply cache) ⟨t, files⟩ = some ((), f) ∧
        ∀ c, c ∈ live l p.name f.store ↔ c ∈ live l p.name t ∧ c ≠ claim := by
  have fits := Pool.ofConfig_tileable made kind
  have start : Tiled l p s := by
    refine ⟨⟨serving, free⟩, fun x there below => ?_⟩
    rw [empty x there] at below
    cases below
  have tiled := worked.tiled fits start
  refine ⟨fun claim held => ?_, ?_, ?_⟩
  · obtain ⟨k, lt, range, _⟩ := tiled.of_live fits held
    exact ⟨k, range ▸ (fits.tile_toNat lt).1⟩
  · rintro a rfl tries cache files owner
    obtain ⟨x, f, run, _, outcome⟩ := tiled.allocate fits tries cache files owner
    exact ⟨x, f, run, outcome⟩
  · rintro a rfl cache files claim held
    obtain ⟨f, run, _, gone⟩ := tiled.release fits cache files held
    exact ⟨f, run, gone⟩

/-! A pool of three blocks of eight addresses, behind three addresses held back and with five to spare. -/

def thirdsConfig : PoolConfig where
  name := "blue"
  kind := .range
  subnet := "10.0.0.0/27"
  rangeStart := none
  rangeEnd := none
  gateway := none
  reservedOffset := 3
  blockExp := some 3
  subnetLen := none
  previousSubnet := none

def thirds : Pool :=
  { Pool.covering "blue" .range (.around 0x0A000000 27 (by decide)) with
    reservedOffset := 3, blockExp := 3 }

theorem thirdsConfig_made : Pool.ofConfig thirdsConfig = .ok thirds := rfl

example : thirds.capacity = 3 := by decide

def lone : BlockAllocator := { layout := .standard }

/-- A block is claimed where tiles begin, and gone once it has been given back. -/
theorem thirds_never_fragment : ∃ claim e f,
    (lone.allocate thirds "me").outcome.run (Desk.reply Reconciler.nook) ⟨.empty 100, ⟨[], []⟩⟩ =
        some (.ok claim, e) ∧
      (∃ k, claim.range.start.toNat = 0x0A000003 + k * 8) ∧
      (lone.release claim).run (Desk.reply Reconciler.nook) e = some ((), f) ∧
      claim ∉ live .standard "blue" f.store := by
  have tiles {t : Store} (worked : Worked .standard thirds (.empty 100) t) :=
    blocks_never_fragment thirdsConfig_made rfl (s := .empty 100) ⟨.nil, rfl, rfl⟩ rfl nofun worked
  obtain ⟨x, e, run, outcome⟩ :=
    (tiles .start).2.1 lone rfl (by decide) Reconciler.nook ⟨[], []⟩ "me"
  have room : (live .standard "blue" (.empty 100)).length ≠ thirds.capacity := by decide
  obtain ⟨claim, rfl, _, one⟩ := (if_neg room).mp outcome
  obtain ⟨lattice, _, releases⟩ := tiles (.allocate .start rfl (by decide) run)
  have mem : claim ∈ live .standard "blue" e.store := (one claim).2 (.inl rfl)
  obtain ⟨f, freed, gone⟩ := releases lone rfl Reconciler.nook e.files claim mem
  exact ⟨claim, e, f, run, lattice claim mem, freed, fun there => ((gone claim).1 there).2 rfl⟩

end BlockAllocator

end NetPool
