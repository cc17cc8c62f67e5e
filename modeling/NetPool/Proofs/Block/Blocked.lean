import NetPool.Proofs.Block.Tiles

/-! A call on a store that may hold anything below the keys of a pool. What is no claim is passed over
when gaps are looked for, but it keeps its key: where such a record has the key of the first block that is
found, each attempt finds that block again, and none claims it. -/

namespace NetPool.BlockAllocator

/-- A block that no live claim overlaps. -/
structure Free (l : KeyLayout) (p : Pool) (s : Store) (r : AddressRange) : Prop where
  block : p.Block r
  clear : ∀ c ∈ live l p.name s, r.overlaps c.range = false

/-- A block that shares no address with the range that a key stands for, whatever is stored under it. -/
structure Unkeyed (l : KeyLayout) (p : Pool) (s : Store) (r : AddressRange) : Prop where
  block : p.Block r
  clear : ∀ e ∈ s.entries, startsWith e.key (l.claimStart .range p.name) = true →
    ∀ slot, l.parseRangeKey e.key = some slot → r.overlaps slot.2 = false

/-- The free block that starts first. None is a result of its own: no block is free. -/
def Earliest (l : KeyLayout) (p : Pool) (s : Store) : Option AddressRange → Prop
  | none => ∀ r, ¬ Free l p s r
  | some r => Free l p s r ∧ ∀ q, Free l p s q → r.start.toNat ≤ q.start.toNat

/-- What a call comes to, and the entries that it leaves. -/
inductive Settles (a : BlockAllocator) (p : Pool) (owner : String) (s : Store) :
    Except Failure RangeClaim → List KeyValue → Prop
  | full (first : Earliest a.layout p s none) :
      Settles a p owner s (.error (.capacityExhausted p.name p.blockSize)) s.entries
  | claimed {r : AddressRange} (first : Earliest a.layout p s (some r))
      (absent : s.find? (a.layout.rangeKey p.name r.start p.blockExp) = none) :
      Settles a p owner s (.ok ⟨p.name, r, owner⟩)
        (s.write (a.layout.rangeKey p.name r.start p.blockExp) (ClaimRecord.ofOwner owner).encode).entries
  | blocked {r : AddressRange} {e : KeyValue} (first : Earliest a.layout p s (some r))
      (there : s.find? (a.layout.rangeKey p.name r.start p.blockExp) = some e)
      (unread : ClaimRecord.decode? e.value = none) :
      Settles a p owner s (.error (.exhausted p.name a.retry.attempts)) s.entries

variable {a : BlockAllocator} {l : KeyLayout} {p : Pool} {s : Store} {r : AddressRange} {e : KeyValue}

/-- While the first tile is free, no other block comes before it. -/
theorem Earliest.start_eq (t : p.Tileable) (first : Earliest l p s (some r))
    (free : Free l p s (p.tile 0)) : r.start = (p.tile 0).start := by
  obtain ⟨⟨block, _⟩, least⟩ := first
  obtain ⟨k, lt, _⟩ := t.exists_tile block
  obtain ⟨start, _⟩ := t.tile_toNat (Nat.zero_lt_of_lt lt)
  have low := block.low
  have before := least _ free
  exact UInt32.toNat_inj.1 (by omega)

/-- A live claim has a key that stands for its range. -/
theorem Unkeyed.free (unkeyed : Unkeyed l p s r) : Free l p s r where
  block := unkeyed.block
  clear c mem := by
    obtain ⟨e, there, below, read⟩ := mem_live.1 mem
    exact unkeyed.clear e there below _ (ofEntry_parse read)

/-- Under the key of a free block there is nothing that is read as a record: it would be a claim to the
block. -/
theorem Free.unread (t : p.Tileable) (free : Free l p s r) (ascending : Store.Ascending s.entries)
    (there : s.find? (l.rangeKey p.name r.start p.blockExp) = some e) :
    ClaimRecord.decode? e.value = none := by
  cases read : ClaimRecord.decode? e.value with
  | none => rfl
  | some record =>
    obtain ⟨mem, key⟩ := (Store.find?_eq_some_iff ascending).1 there
    have below : startsWith e.key (l.claimStart .range p.name) = true := by
      rw [key]
      exact startsWith_append _ _
    have slot : l.parseRangeKey e.key = some (p.name, r) := by
      rw [key]
      exact KeyLayout.parseRangeKey_rangeKey_eq_some.2
        ⟨rfl, t.named, rfl, free.block.size.trans t.size, t.exponent⟩
    have claim : RangeClaim.ofEntry l e = .ok ⟨p.name, r, record.owner⟩ :=
      RangeClaim.ofEntry_eq_ok.2 ⟨slot, record, read, rfl⟩
    have apart := free.clear _ (mem_live.2 ⟨e, mem, below, claim⟩)
    rw [r.overlaps_self] at apart
    cases apart

/-- First fit finds the free block that starts first. -/
theorem firstFit_earliest : Earliest a.layout p s
    (Search.firstFit p.bounds p.firstCandidate p.blockSize (a.listed (entriesOf a.layout p.name s))) := by
  have least {q : AddressRange} (free : Free a.layout p s q) : ∃ r, Search.firstFit p.bounds
      p.firstCandidate p.blockSize (a.listed (entriesOf a.layout p.name s)) = some r ∧
        r.start.toNat ≤ q.start.toNat := by
    refine Pool.firstFit_before free.block fun c mem => ?_
    obtain ⟨claim, held, rfl⟩ := mem_listed.1 mem
    exact free.clear claim held
  cases found : Search.firstFit p.bounds p.firstCandidate p.blockSize
      (a.listed (entriesOf a.layout p.name s)) with
  | none =>
    intro q free
    obtain ⟨r, fit, _⟩ := least free
    cases found.symm.trans fit
  | some r =>
    obtain ⟨block, clear⟩ := Pool.firstFit_block found
    refine ⟨⟨block, fun c held => clear _ (mem_listed.2 ⟨c, held, rfl⟩)⟩, fun q free => ?_⟩
    obtain ⟨r', fit, before⟩ := least free
    cases found.symm.trans fit
    exact before

theorem Quiet.allocate (quiet : Quiet a.layout p.name s) (t : p.Tileable) (tries : 0 < a.retry.attempts)
    (cache : RangeCache) (files : FileTree) (owner : String) :
    ∃ x f, (a.allocate p owner).outcome.run (Desk.wait cache) ⟨s, files⟩ = some (x, f) ∧
      Settles a p owner s x f.store.entries := by
  have first := firstFit_earliest (a := a) (p := p) (s := s)
  cases found : Search.firstFit p.bounds p.firstCandidate p.blockSize
      (a.listed (entriesOf a.layout p.name s)) with
  | none =>
    rw [found] at first
    obtain ⟨f, run, _, same⟩ :=
      allocate_full (d := ⟨s, files⟩) t.kind tries cache quiet owner found
    exact ⟨_, f, Program.run_mono Desk.wait_of_reply run, same ▸ .full first⟩
  | some r =>
    rw [found] at first
    cases there : s.find? (a.layout.rangeKey p.name r.start p.blockExp) with
    | none =>
      obtain ⟨f, run, _, same⟩ :=
        allocate_placed (d := ⟨s, files⟩) t.kind tries cache quiet owner found there
      exact ⟨_, f, Program.run_mono Desk.wait_of_reply run, same ▸ .claimed first there⟩
    | some e =>
      obtain ⟨f, run, _, same⟩ :=
        allocate_blocked (d := ⟨s, files⟩) t.kind cache quiet owner found there
      exact ⟨_, f, run, same ▸ .blocked first there (first.1.unread t quiet.serving.ascending there)⟩

theorem Settles.room {x : Except Failure RangeClaim} {owner : String} {entries : List KeyValue}
    (settles : Settles a p owner s x entries) (free : Free a.layout p s r) :
    x ≠ .error (.capacityExhausted p.name p.blockSize) := by
  rintro rfl
  cases settles with
  | full first => exact first r free

/-- A call with nobody else at work, whatever is stored below the keys of the pool. It claims the first
block that is free of live claims, under a key that was not there; but if that key is there already, with
a value that is no record, all attempts are used up on it, and this is the only way in which they are. Space
is not reported to have run out as long as some block shares no address with the range of any key. -/
theorem claims_first_or_stuck {c : PoolConfig} {p : Pool} (made : Pool.ofConfig c = .ok p)
    (kind : p.kind = .range) {a : BlockAllocator} {s : Store} (serving : s.Serving)
    (free : s.isLocked (a.layout.mutex .range p.name) = false) (tries : 0 < a.retry.attempts)
    (cache : RangeCache) (files : FileTree) (owner : String) :
    ∃ x f, (a.allocate p owner).outcome.run (Desk.wait cache) ⟨s, files⟩ = some (x, f) ∧
      Settles a p owner s x f.store.entries ∧
      ((∃ r, Unkeyed a.layout p s r) → x ≠ .error (.capacityExhausted p.name p.blockSize)) := by
  have t := Pool.ofConfig_tileable made kind
  obtain ⟨x, f, run, settles⟩ := Quiet.allocate ⟨serving, free⟩ t tries cache files owner
  exact ⟨x, f, run, settles, fun ⟨_, unkeyed⟩ => settles.room unkeyed.free⟩

/-! A store in which something that is no record stands under the key of a tile. -/

theorem thirds_tileable : thirds.Tileable := Pool.ofConfig_tileable thirdsConfig_made rfl

def spoiled (k : Nat) : Store :=
  (Store.empty 100).write (KeyLayout.standard.rangeKey "blue" (thirds.tile k).start 3)
    (Text.utf8 "garbage")

theorem spoiled_quiet (k : Nat) : Quiet .standard "blue" (spoiled k) :=
  ⟨Store.Serving.write (s := .empty 100) ⟨.nil, rfl, rfl⟩ _ _, rfl⟩

theorem spoiled_free (n : Nat) : Free .standard thirds (spoiled n) (thirds.tile 0) where
  block := thirds_tileable.tile_block (by decide)
  clear c mem := by
    obtain ⟨e, there, _, read⟩ := mem_live.1 mem
    obtain ⟨_, record, decoded, _⟩ := RangeClaim.ofEntry_eq_ok.1 read
    cases List.mem_singleton.1 there
    cases decoded

/-- Under another key it is in nobody's way. -/
theorem garbage_elsewhere : ∃ claim f,
    (lone.allocate thirds "me").outcome.run (Desk.wait Reconciler.nook) ⟨spoiled 1, ⟨[], []⟩⟩ =
        some (.ok claim, f) ∧
      claim.range.start = (thirds.tile 0).start := by
  obtain ⟨x, f, run, settles, _⟩ := claims_first_or_stuck thirdsConfig_made rfl (a := lone)
    (spoiled_quiet 1).serving (spoiled_quiet 1).free (by decide) Reconciler.nook ⟨[], []⟩ "me"
  generalize f.store.entries = entries at settles
  cases settles with
  | full first => exact absurd (spoiled_free 1) (first _)
  | claimed first => exact ⟨_, f, run, first.start_eq thirds_tileable (spoiled_free 1)⟩
  | blocked first there =>
    rw [first.start_eq thirds_tileable (spoiled_free 1)] at there
    cases there

/-- Under the key of the first tile it keeps every block from being claimed, although the next tile shares
no address with the range of any key. -/
theorem garbage_blocks : Pool.ofConfig thirdsConfig = .ok thirds ∧
    Quiet .standard "blue" (spoiled 0) ∧ Unkeyed .standard thirds (spoiled 0) (thirds.tile 1) ∧
    ∃ f, (lone.allocate thirds "me").outcome.run (Desk.wait Reconciler.nook) ⟨spoiled 0, ⟨[], []⟩⟩ =
        some (.error (.exhausted "blue" 3), f) ∧
      f.store.entries = (spoiled 0).entries := by
  refine ⟨thirdsConfig_made, spoiled_quiet 0, ⟨thirds_tileable.tile_block (by decide), ?_⟩, ?_⟩
  · intro e there _ slot read
    cases List.mem_singleton.1 there
    obtain ⟨_, _, start, size, _⟩ := KeyLayout.parseRangeKey_rangeKey_eq_some.1 read
    have first : slot.2 = thirds.tile 0 := AddressRange.eq_of_start_size start size
    rw [first]
    decide
  · obtain ⟨x, f, run, settles⟩ := Quiet.allocate (a := lone) (p := thirds) (spoiled_quiet 0)
      thirds_tileable (by decide) Reconciler.nook ⟨[], []⟩ "me"
    refine ⟨f, ?_⟩
    generalize f.store.entries = entries at settles
    cases settles with
    | full first => exact absurd (spoiled_free 0) (first _)
    | claimed first absent =>
      rw [first.start_eq thirds_tileable (spoiled_free 0)] at absent
      cases absent
    | blocked => exact ⟨run, rfl⟩

end NetPool.BlockAllocator
