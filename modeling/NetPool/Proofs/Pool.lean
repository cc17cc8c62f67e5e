import NetPool.Pool.Basic
import NetPool.Proofs.Keys
import NetPool.Proofs.Nesting

/-! Pools made as configured. -/

namespace NetPool

theorem Except.eq_ok_of_bind {ε α β : Type} {x : Except ε α} {f : α → Except ε β} {b : β}
    (done : (x >>= f) = .ok b) : ∃ a, x = .ok a ∧ f a = .ok b := by
  cases x with
  | error => cases done
  | ok a => exact ⟨a, rfl, done⟩

theorem Except.eq_ok_of_mapError {ε ε' α : Type} {x : Except ε α} {f : ε → ε'} {a : α}
    (done : x.mapError f = .ok a) : x = .ok a := by
  cases x with
  | error => cases done
  | ok b =>
    cases done
    rfl

theorem Except.ite_eq_ok {ε α : Type} {c : Prop} [Decidable c] {e : ε} {a b : α} :
    (if c then Except.ok a else .error e) = .ok b ↔ c ∧ a = b := by
  split <;> simp [*]

namespace Pool

theorem mem_reserve {a b : Address} {l : List Address} : b ∈ reserve a l ↔ b = a ∨ b ∈ l := by
  induction l with
  | nil => simp [reserve]
  | cons d l ih =>
    unfold reserve
    split
    · simp
    · split
      · rename_i same
        simp [same]
      · simp only [List.mem_cons, ih]
        exact or_left_comm

theorem mem_covering (name : String) (kind : PoolKind) (network : Subnet) {a : Address} :
    a ∈ (covering name kind network).reserved ↔
      network.length < 31 ∧ (a = network.network ∨ a = network.last) := by
  dsimp only [covering]
  split
  · rename_i large
    simp [mem_reserve, large]
  · rename_i small
    simp [small]

theorem covering_blockExp_le (name : String) (kind : PoolKind) (network : Subnet) :
    (covering name kind network).blockExp ≤ 32 - network.length := by
  cases kind with
  | range => exact Nat.min_le_right _ _
  | subnet | fixed => exact Nat.zero_le _

/-! What each setting does to a pool. -/

section

variable {c : PoolConfig} {p q : Pool}

theorem given_cases {α : Type} {step : Pool → α → Except Failure Pool} {setting : Option α}
    (made : given setting step p = .ok q) :
    setting = none ∧ p = q ∨ ∃ a, setting = some a ∧ step p a = .ok q := by
  cases setting with
  | none =>
    cases made
    exact .inl ⟨rfl, rfl⟩
  | some a => exact .inr ⟨a, rfl, made⟩

theorem restricted_bounds (made : restricted c p = .ok q) :
    ∃ b, { p with bounds := b } = q ∧
      (b = p.bounds ∨ p.network.range.containsRange b = true) := by
  unfold restricted at made
  split at made
  · cases made
    exact ⟨p.bounds, rfl, .inl rfl⟩
  · obtain ⟨start, _, made⟩ := Except.eq_ok_of_bind made
    obtain ⟨stop, _, made⟩ := Except.eq_ok_of_bind made
    obtain ⟨b, _, made⟩ := Except.eq_ok_of_bind made
    obtain ⟨inside, same⟩ := Except.ite_eq_ok.1 made
    exact ⟨b, same, .inr inside⟩

theorem given_blockExp (made : given c.blockExp withBlockExp p = .ok q) :
    ∃ n, { p with blockExp := n } = q ∧ (n = p.blockExp ∨ n ≤ 32 - p.network.length) := by
  rcases given_cases made with ⟨_, rfl⟩ | ⟨n, _, made⟩
  · exact ⟨p.blockExp, rfl, .inl rfl⟩
  · obtain ⟨le, same⟩ := Except.ite_eq_ok.1 made
    exact ⟨n, same, .inr le⟩

theorem given_subnetLen (made : given c.subnetLen withSubnetLen p = .ok q) :
    ∃ n, { p with subnetLen := n } = q ∧
      (n = p.subnetLen ∨ p.network.length ≤ n ∧ n ≤ 32) := by
  rcases given_cases made with ⟨_, rfl⟩ | ⟨n, _, made⟩
  · exact ⟨p.subnetLen, rfl, .inl rfl⟩
  · obtain ⟨within, same⟩ := Except.ite_eq_ok.1 made
    exact ⟨n, same, .inr within⟩

theorem given_gateway (made : given c.gateway withGatewayText p = .ok q) (none : p.gateway = none) :
    ∃ g held, { p with reserved := held, gateway := g } = q ∧
      c.gateway.map Address.parse = g.map .ok ∧ (∀ a, a ∈ held ↔ a ∈ p.reserved ∨ g = some a) ∧
      ∀ a, g = some a → p.network.contains a = true := by
  rcases given_cases made with ⟨absent, rfl⟩ | ⟨text, present, made⟩
  · refine ⟨p.gateway, p.reserved, rfl, ?_, ?_, ?_⟩
    · simp [absent, none]
    · simp [none]
    · simp [none]
  · obtain ⟨a, read, made⟩ := Except.eq_ok_of_bind made
    obtain ⟨inside, same⟩ := Except.ite_eq_ok.1 made
    refine ⟨some a, reserve a p.reserved, same, ?_, ?_, ?_⟩
    · rw [present]
      exact congrArg some (Except.eq_ok_of_mapError read)
    · intro b
      rw [mem_reserve, or_comm, Option.some.injEq, eq_comm]
    · rintro _ ⟨⟩
      exact inside

end

theorem firstCandidate_toNat (p : Pool) :
    p.firstCandidate.toNat = p.bounds.start.toNat + p.reservedOffset.toNat := by
  have start := p.bounds.start.toNat_lt
  have offset := p.reservedOffset.toNat_lt
  rw [firstCandidate, UInt64.toNat_add, UInt32.toNat_toUInt64, UInt32.toNat_toUInt64]
  omega

theorem first_le (p : Pool) : p.bounds.start.toUInt64 ≤ p.firstCandidate := by
  rw [UInt64.le_iff_toNat_le, UInt32.toNat_toUInt64, firstCandidate_toNat]
  exact Nat.le_add_right _ _

/-- What a pool that is made as configured keeps to. -/
structure Configured (c : PoolConfig) (p : Pool) : Prop where
  named : KeyLayout.Named p.name
  network : Subnet.parse c.subnet = .ok p.network
  inside : p.network.range.containsRange p.bounds = true
  first : p.bounds.start.toUInt64 ≤ p.firstCandidate
  candidate : p.firstCandidate ≤ p.bounds.stop.toUInt64
  block : 2 ^ p.blockExp ≤ p.network.size.toNat
  longer : p.network.length ≤ p.subnetLen
  length : p.subnetLen ≤ 32
  gateway : c.gateway.map Address.parse = p.gateway.map .ok
  reserved : ∀ a, a ∈ p.reserved ↔
    p.network.length < 31 ∧ (a = p.network.network ∨ a = p.network.last) ∨ p.gateway = some a
  held : ∀ a ∈ p.reserved, p.network.contains a = true

theorem ofConfig_configured {c : PoolConfig} {p : Pool} (made : ofConfig c = .ok p) :
    Configured c p := by
  unfold ofConfig at made
  split at made
  · cases made
  rename_i fine
  rw [not_or] at fine
  obtain ⟨network, read, made⟩ := Except.eq_ok_of_bind made
  obtain ⟨_, restricts, made⟩ := Except.eq_ok_of_bind made
  obtain ⟨_, blocks, made⟩ := Except.eq_ok_of_bind made
  obtain ⟨_, lengths, made⟩ := Except.eq_ok_of_bind made
  obtain ⟨_, reserves, made⟩ := Except.eq_ok_of_bind made
  split at made
  · cases made
  rename_i room
  cases made
  obtain ⟨bounds, rfl, inside⟩ := restricted_bounds restricts
  obtain ⟨exponent, rfl, block⟩ := given_blockExp blocks
  obtain ⟨length, rfl, within⟩ := given_subnetLen lengths
  obtain ⟨gateway, held, rfl, given, reserved, entrance⟩ := given_gateway reserves rfl
  have mem (a : Address) : a ∈ held ↔
      network.length < 31 ∧ (a = network.network ∨ a = network.last) ∨ gateway = some a := by
    rw [reserved]
    exact or_congr_left (mem_covering c.name c.kind network)
  constructor
  case named => exact (⟨fine.1, by simpa using fine.2⟩ : KeyLayout.Named c.name)
  case network => exact Except.eq_ok_of_mapError read
  case inside =>
    rcases inside with rfl | inside
    · exact AddressRange.containsRange_iff.2 ⟨Nat.le_refl _, Nat.le_refl _⟩
    · exact inside
  case first => exact first_le _
  case candidate => exact UInt64.not_lt.1 room
  case block =>
    have small : exponent ≤ 32 - network.length := by
      rcases block with rfl | block
      · exact covering_blockExp_le c.name c.kind network
      · exact block
    rw [Subnet.size_toNat]
    exact Nat.pow_le_pow_right (by decide) small
  case longer =>
    rcases within with rfl | within
    · exact Nat.le_min.2 ⟨Nat.le_add_right _ 8, network.length_le⟩
    · exact within.1
  case length =>
    rcases within with rfl | within
    · exact Nat.min_le_right _ _
    · exact within.2
  case gateway => exact given
  case reserved => exact mem
  case held =>
    intro a there
    have ordered := UInt32.le_iff_toNat_le.1 network.network_le_last
    rcases (mem a).1 there with ⟨_, rfl | rfl⟩ | chosen
    · exact Subnet.contains_iff.2 ⟨Nat.le_refl _, ordered⟩
    · exact Subnet.contains_iff.2 ⟨ordered, Nat.le_refl _⟩
    · exact entrance a chosen

theorem ofConfig_named {c : PoolConfig} {p : Pool} (made : ofConfig c = .ok p) :
    KeyLayout.Named p.name :=
  (ofConfig_configured made).named

/-- Blocks have their size in the space. -/
theorem ofConfig_blockExp_le {c : PoolConfig} {p : Pool} (made : ofConfig c = .ok p) :
    p.blockExp ≤ 32 := by
  have block := (ofConfig_configured made).block
  rw [Subnet.size_toNat] at block
  exact Nat.le_trans ((Nat.pow_le_pow_iff_right (by decide)).1 block) (Nat.sub_le _ _)

/-! Where blocks are looked for, and what is found. -/

/-- Where a search begins. -/
theorem cursor_toNat (p : Pool) :
    (max p.firstCandidate p.bounds.start.toUInt64).toNat = p.firstCandidate.toNat := by
  have first := p.firstCandidate_toNat
  rw [max_toNat, UInt32.toNat_toUInt64]
  omega

theorem blockSize_pos (p : Pool) : 0 < p.blockSize.toNat := by
  unfold blockSize
  cases p.kind with
  | range | subnet => exact one_shiftLeft_pos _
  | fixed => exact Nat.one_pos

theorem blockSize_toNat {p : Pool} (kind : p.kind = .range) (le : p.blockExp ≤ 32) :
    p.blockSize.toNat = 2 ^ p.blockExp := by
  rw [blockSize, kind]
  exact one_shiftLeft_toNat le

/-- A block of a pool: of its size, in bounds and behind what is held back. -/
structure Block (p : Pool) (r : AddressRange) : Prop where
  size : r.size.toNat = p.blockSize.toNat
  low : p.firstCandidate.toNat ≤ r.start.toNat
  high : r.stop.toNat ≤ p.bounds.stop.toNat

section

variable {p : Pool} {claimed : List AddressRange} {r : AddressRange}

/-- What is found is a block clear of the claims. -/
theorem firstFit_block
    (found : Search.firstFit p.bounds p.firstCandidate p.blockSize claimed = some r) :
    p.Block r ∧ ∀ c ∈ claimed, r.overlaps c = false := by
  obtain ⟨size, searched⟩ := Search.firstFit_sound found p.blockSize_pos
  rw [Search.Clear, p.cursor_toNat, UInt32.toNat_toUInt64] at searched
  exact ⟨⟨size, searched.1, searched.2.1⟩, searched.2.2⟩

/-- A block clear of the claims is found, or one that starts before it. -/
theorem firstFit_before (block : p.Block r) (clear : ∀ c ∈ claimed, r.overlaps c = false) :
    ∃ q, Search.firstFit p.bounds p.firstCandidate p.blockSize claimed = some q ∧
      q.start.toNat ≤ r.start.toNat := by
  refine Search.firstFit_least p.blockSize_pos block.size ?_
  rw [Search.Clear, p.cursor_toNat, UInt32.toNat_toUInt64]
  exact ⟨block.low, block.high, clear⟩

end

end Pool

end NetPool
