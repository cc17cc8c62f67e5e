import NetPool.Allocation.Pin
import NetPool.Proofs.Pool
import NetPool.Proofs.Record

/-! The entry that counts for a workload: of those that pin an address to it, the one created first. It
is the one that is chosen among the pins that were read. -/

namespace NetPool

theorem FixedClaim.ofEntry_eq_ok {l : KeyLayout} {e : KeyValue} {c : FixedClaim} :
    FixedClaim.ofEntry l e = .ok c ↔ l.parseFixedKey e.key = some (c.pool, c.address) ∧
      ∃ r, ClaimRecord.decode? e.value = some r ∧ c.owner = r.owner ∧
        c.workload = r.workload.getD "" := by
  unfold FixedClaim.ofEntry ClaimRecord.decode
  obtain ⟨pool, address, owner, workload⟩ := c
  cases l.parseFixedKey e.key with
  | none => simp
  | some slot =>
    cases ClaimRecord.decode? e.value with
    | none => simp [bind, Except.bind]
    | some r =>
      simp only [bind, Except.bind, pure, Except.pure, Except.ok.injEq, FixedClaim.mk.injEq,
        Option.some.injEq, Prod.ext_iff, exists_eq_left']
      constructor
      · rintro ⟨pool, address, owner, workload⟩
        exact ⟨⟨pool, address⟩, owner.symm, workload.symm⟩
      · rintro ⟨⟨pool, address⟩, owner, workload⟩
        exact ⟨pool, address, owner.symm, workload.symm⟩

/-- One pool of single addresses, with a name that can be told from its keys. -/
structure PinPool where
  layout : KeyLayout
  pool : Pool
  named : KeyLayout.Named pool.name

namespace PinPool

def ofConfig (l : KeyLayout) {c : PoolConfig} {pool : Pool} (made : Pool.ofConfig c = .ok pool) : PinPool :=
  ⟨l, pool, Pool.ofConfig_named made⟩

variable (p : PinPool)

def start : String := p.layout.claimStart .fixed p.pool.name

def key (a : Address) : String := p.layout.fixedKey p.pool.name a

def record (owner workload : String) : Bytes :=
  ClaimRecord.encode { owner, workload := some workload }

/-- The entry is a claim of the pool for a workload. -/
structure Pins (workload : String) (e : KeyValue) : Prop where
  below : startsWith e.key p.start = true
  read : ∃ c, FixedClaim.ofEntry p.layout e = .ok c ∧ c.workload = workload

/-- The entry that counts for a workload; between two created at once, the order of the keys decides. -/
structure First (entries : List KeyValue) (workload : String) (e : KeyValue) : Prop where
  mem : e ∈ entries
  pins : p.Pins workload e
  least : ∀ f ∈ entries, p.Pins workload f →
    e.created < f.created ∨ e.created = f.created ∧ e.key ≤ f.key

variable {p} {es : List KeyValue} {v w : String} {e f : KeyValue}

theorem Pins.unique (one : p.Pins v e) (other : p.Pins w e) : v = w := by
  obtain ⟨c, read, rfl⟩ := one.read
  obtain ⟨d, same, rfl⟩ := other.read
  rw [read] at same
  cases same
  rfl

theorem First.unique (asc : Store.Ascending es) (one : p.First es w e) (other : p.First es w f) :
    e = f := by
  have there := one.least f other.mem other.pins
  have back := other.least e one.mem one.pins
  have created : e.created = f.created := by omega
  have below : e.key ≤ f.key := by
    rcases there with earlier | ⟨_, below⟩
    · omega
    · exact below
  have above : f.key ≤ e.key := by
    rcases back with earlier | ⟨_, above⟩
    · omega
    · exact above
  exact asc.eq_of_key one.mem other.mem (String.le_antisymm below above)

/-- What is created pins its workload. -/
theorem pins_record {a : Address} {owner : String} (key : e.key = p.key a)
    (value : e.value = record owner w) : p.Pins w e := by
  refine ⟨?_, ⟨p.pool.name, a, owner, w⟩, FixedClaim.ofEntry_eq_ok.2 ⟨?_, ?_⟩, rfl⟩
  · rw [key]
    exact startsWith_append _ _
  · rw [key]
    exact KeyLayout.parseFixedKey_fixedKey_eq_some.2 ⟨rfl, p.named, rfl⟩
  · rw [value, record, ClaimRecord.decode?_encode]
    exact ⟨_, rfl, rfl, rfl⟩

end PinPool

/-! The choice among the pins that were read finds that entry. -/

theorem earliest_eq_none {pins : List Pin} : earliest pins = none ↔ pins = [] := by
  cases pins with
  | nil => exact ⟨fun _ => rfl, fun _ => rfl⟩
  | cons a rest =>
    refine ⟨fun h => ?_, nofun⟩
    unfold earliest at h
    split at h
    · cases h
    · split at h <;> cases h

theorem earliest_eq_some {pins : List Pin} {a : Pin} (found : earliest pins = some a) :
    ∃ before after, pins = before ++ a :: after ∧ (∀ b ∈ before, a.created < b.created) ∧
      ∀ b ∈ after, a.created ≤ b.created := by
  induction pins generalizing a with
  | nil => cases found
  | cons b rest ih =>
    unfold earliest at found
    split at found
    · rename_i none
      cases found
      exact ⟨[], [], by rw [earliest_eq_none.1 none]; rfl, nofun, nofun⟩
    · rename_i c some
      obtain ⟨before, after, rfl, earlier, later⟩ := ih some
      split at found
      · rename_i less
        cases found
        exact ⟨b :: before, after, rfl, List.forall_mem_cons.2 ⟨less, earlier⟩, later⟩
      · rename_i least
        cases found
        refine ⟨[], _, rfl, nofun, fun d mem => ?_⟩
        rcases List.mem_append.1 mem with front | mem
        · exact Nat.le_trans (Nat.le_of_not_lt least) (Nat.le_of_lt (earlier d front))
        · rcases List.mem_cons.1 mem with rfl | back
          · exact Nat.le_of_not_lt least
          · exact Nat.le_trans (Nat.le_of_not_lt least) (later d back)

namespace PinAllocator

variable {p : PinPool} {es : List KeyValue} {w : String}

/-- The pin of an entry, if it is one of the workload. -/
def pinFor (l : KeyLayout) (w : String) (e : KeyValue) : Option Pin :=
  (pinOf l e).toOption.filter (·.claim.workload = w)

theorem pinned_eq (l : KeyLayout) (w : String) (entries : List KeyValue) :
    pinned w (decodeClaims (pinOf l) entries) =
      (earliest (entries.filterMap (pinFor l w))).map (·.claim) := by
  rw [pinned, decodeClaims, List.filter_filterMap]
  rfl

theorem pinFor_eq_some {l : KeyLayout} {e : KeyValue} {pin : Pin} : pinFor l w e = some pin ↔
    pin.created = e.created ∧ FixedClaim.ofEntry l e = .ok pin.claim ∧ pin.claim.workload = w := by
  obtain ⟨created, claim⟩ := pin
  unfold pinFor pinOf
  cases FixedClaim.ofEntry l e with
  | error failure => simp [bind, Except.bind, Except.toOption]
  | ok c =>
    simp only [bind, Except.bind, pure, Except.pure, Except.toOption, Option.filter_eq_some_iff,
      Option.some.injEq, Pin.mk.injEq, decide_eq_true_iff, Except.ok.injEq]
    constructor
    · rintro ⟨⟨rfl, rfl⟩, work⟩
      exact ⟨rfl, rfl, work⟩
    · rintro ⟨rfl, rfl, work⟩
      exact ⟨⟨rfl, rfl⟩, work⟩

theorem pins_of_pinFor {e : KeyValue} {pin : Pin} (below : startsWith e.key p.start = true)
    (read : pinFor p.layout w e = some pin) : p.Pins w e := by
  obtain ⟨_, claim, work⟩ := pinFor_eq_some.1 read
  exact ⟨below, pin.claim, claim, work⟩

theorem pinFor_of_pins {e : KeyValue} (pins : p.Pins w e) :
    ∃ pin, pinFor p.layout w e = some pin := by
  obtain ⟨c, read, work⟩ := pins.read
  exact ⟨⟨e.created, c⟩, pinFor_eq_some.2 ⟨rfl, read, work⟩⟩

/-- Entries stand in the order of their keys, so among those created at once the first one read has the
least key. -/
theorem earliest_pinFor {l : KeyLayout} (asc : Store.Ascending es) {pin : Pin}
    (found : earliest (es.filterMap (pinFor l w)) = some pin) :
    ∃ e ∈ es, pinFor l w e = some pin ∧ ∀ f ∈ es, ∀ other, pinFor l w f = some other →
      e.created < f.created ∨ e.created = f.created ∧ e.key ≤ f.key := by
  obtain ⟨before, after, split, earlier, later⟩ := earliest_eq_some found
  obtain ⟨front, back, rfl, rfl, cons⟩ := List.filterMap_eq_append_iff.1 split
  obtain ⟨skipped, e, rest, rfl, unread, read, rfl⟩ := List.filterMap_eq_cons_iff.1 cons
  have created := (pinFor_eq_some.1 read).1
  refine ⟨e, by simp, read, fun f mem other readF => ?_⟩
  have createdF := (pinFor_eq_some.1 readF).1
  rcases List.mem_append.1 mem with first | mem
  · have less := earlier other (List.mem_filterMap.2 ⟨f, first, readF⟩)
    exact .inl (by omega)
  rcases List.mem_append.1 mem with between | mem
  · rw [unread f between] at readF
    cases readF
  rcases List.mem_cons.1 mem with rfl | last
  · exact .inr ⟨rfl, String.le_refl _⟩
  · have least := later other (List.mem_filterMap.2 ⟨f, last, readF⟩)
    have behind := (List.pairwise_append.1 (List.pairwise_append.1 asc).2.1).2.1
    have below : e.key < f.key := (List.pairwise_cons.1 behind).1 f last
    rcases Nat.lt_or_eq_of_le least with less | same
    · exact .inl (by omega)
    · exact .inr ⟨by omega, String.lt_asymm below⟩

theorem pinned_eq_some (asc : Store.Ascending es) {c : FixedClaim}
    (found : pinned w (decodeClaims (pinOf p.layout) (es.filter (startsWith ·.key p.start))) = some c) :
    ∃ e, p.First es w e ∧ FixedClaim.ofEntry p.layout e = .ok c := by
  rw [pinned_eq] at found
  obtain ⟨pin, chosen, rfl⟩ := Option.map_eq_some_iff.1 found
  obtain ⟨e, mem, read, least⟩ := earliest_pinFor (asc.filter _) chosen
  obtain ⟨here, below⟩ := List.mem_filter.1 mem
  refine ⟨e, ⟨here, pins_of_pinFor below read, fun f there pins => ?_⟩, (pinFor_eq_some.1 read).2.1⟩
  obtain ⟨other, readF⟩ := pinFor_of_pins pins
  exact least f (List.mem_filter.2 ⟨there, pins.below⟩) other readF

theorem pinned_of_pins {e : KeyValue} (mem : e ∈ es) (pins : p.Pins w e) :
    pinned w (decodeClaims (pinOf p.layout) (es.filter (startsWith ·.key p.start))) ≠ none := by
  rw [pinned_eq, Ne, Option.map_eq_none_iff, earliest_eq_none, List.filterMap_eq_nil_iff]
  intro none
  obtain ⟨pin, read⟩ := pinFor_of_pins pins
  rw [none e (List.mem_filter.2 ⟨mem, pins.below⟩)] at read
  cases read

end PinAllocator

end NetPool
