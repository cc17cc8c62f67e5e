import NetPool.Node.Basic
import NetPool.Proofs.Placed

/-! When leases end. How long a lease lasts is counted in milliseconds and narrowed to a word before it is
added to the time: the sum stops at the last instant there is, but the narrowing goes round. -/

namespace NetPool

/-- A store that answers at once, beside a clock that stands at one time. -/
def Store.clocked (now : UInt64) (s : Store) : (r : Request) → Option (r.Answer × Store)
  | .now => some (now, s)
  | r => s.reply r

theorem Store.run_clocked {α : Type} {now : UInt64} {s t : Store} {r : StoreRequest}
    {x : Except StoreError r.Result} (served : s.serve r = (some x, t))
    (next : Except StoreError r.Result → Program α) :
    (Program.ask (.store r) next).run (clocked now) s = (next x).run (clocked now) t := by
  simp only [Program.run, clocked, reply, served]
  rfl

namespace LeaseAllocator

/-- What is granted at a time ends then: a lease that is created, and one that is written over. -/
structure Grants (a : LeaseAllocator) (now ends : UInt64) : Prop where
  created : ∀ (p : Pool) (owner : String) (q : Subnet) (s : Store), s.Serving →
    s.find? (a.layout.subnetKey p.name q) = none → (a.create p owner q).outcome.run (Store.clocked now) s =
      some (.ok (some ⟨p.name, q, owner, ends⟩),
        s.write (a.layout.subnetKey p.name q) (LeasePool.record owner ends))
  written : ∀ (c : SubnetClaim) (s : Store), s.Serving → (a.write c).outcome.run (Store.clocked now) s =
    some (.ok { c with expiration := ends },
      s.write (a.layout.subnetKey c.pool c.subnet) (LeasePool.record c.owner ends))

theorem grants_expiration (a : LeaseAllocator) (now : UInt64) : a.Grants now (a.expiration now) where
  created p owner q s serving absent := by
    rw [Operation.outcome, create_eq]
    exact Store.run_clocked (serving.serve_created absent _) _
  written c s serving := by
    rw [Operation.outcome, write_eq]
    exact Store.run_clocked (serving.serve_put _ _) _

variable {a b : LeaseAllocator} {now : UInt64}

theorem Grants.unique {first second : UInt64} (one : a.Grants now first) (other : a.Grants now second) :
    first = second := by
  have run := one.written ⟨"", .around 0 0 (by decide), "", 0⟩ (.empty 1) ⟨.nil, rfl, rfl⟩
  have same := other.written ⟨"", .around 0 0 (by decide), "", 0⟩ (.empty 1) ⟨.nil, rfl, rfl⟩
  have claim := Except.ok.inj (Prod.mk.inj (Option.some.inj (run.symm.trans same))).1
  exact congrArg SubnetClaim.expiration claim

theorem expiration_toNat (a : LeaseAllocator) (now : UInt64) :
    (a.expiration now).toNat = min (now.toNat + a.ttl % 2 ^ 64) (2 ^ 64 - 1) := by
  rw [expiration, Clock.addSaturating_toNat, UInt64.toNat_ofNat']

/-- The narrowing does not show if nothing is lost, or if the time comes to an end all the same. -/
theorem expiration_exact_iff : (a.expiration now).toNat = min (now.toNat + a.ttl) (2 ^ 64 - 1) ↔
    a.ttl < 2 ^ 64 ∨ 2 ^ 64 - 1 ≤ now.toNat + a.ttl % 2 ^ 64 := by
  rw [expiration_toNat]
  omega

/-- A lease that lasts whole rounds of a word is over at once. -/
theorem expiration_le_iff : a.expiration now ≤ now ↔ now.toNat = 2 ^ 64 - 1 ∨ 2 ^ 64 ∣ a.ttl := by
  have bound := now.toNat_lt
  rw [UInt64.le_iff_toNat_le, expiration_toNat]
  omega

theorem expiration_le_expiration (le : a.ttl ≤ b.ttl) (whole : b.ttl < 2 ^ 64) :
    a.expiration now ≤ b.expiration now := by
  rw [UInt64.le_iff_toNat_le, expiration_toNat, expiration_toNat]
  omega

end LeaseAllocator

namespace Node

theorem thousand_dvd_iff (n : Nat) : 2 ^ 64 ∣ 1000 * n ↔ 2 ^ 61 ∣ n := by
  have parts : 1000 * n = 2 ^ 3 * (125 * n) := by omega
  have coprime : Nat.Coprime (2 ^ 61) 125 := by decide
  rw [parts, Nat.pow_add 2 3 61, Nat.mul_dvd_mul_iff_left (by decide)]
  exact ⟨coprime.dvd_of_dvd_mul_left, fun dvd => Nat.dvd_mul_left_of_dvd dvd 125⟩

/-- At any time the node grants leases that end after the milliseconds that its configuration makes of
them, less whole rounds of a word. That is when they should end, exactly if the milliseconds fit into a
word or the time comes to an end all the same. A lease is over when it is granted exactly if it is the
last instant, or the seconds that it lasts are a multiple of 2 ^ 61. And as long as the milliseconds fit
into a word, a lease that should last longer ends no earlier. -/
theorem leases_end_by_narrowed_ttl (n : Node) (now : UInt64) : ∃ ends, n.leaseAllocator.Grants now ends ∧
    ends.toNat = min (now.toNat + 1000 * n.config.lease.ttl % 2 ^ 64) (2 ^ 64 - 1) ∧
    (ends.toNat = min (now.toNat + 1000 * n.config.lease.ttl) (2 ^ 64 - 1) ↔
      1000 * n.config.lease.ttl < 2 ^ 64 ∨
        2 ^ 64 - 1 ≤ now.toNat + 1000 * n.config.lease.ttl % 2 ^ 64) ∧
    (∀ c : SubnetClaim, c.expiration = ends →
      (c.isExpired now = true ↔ now.toNat = 2 ^ 64 - 1 ∨ 2 ^ 61 ∣ n.config.lease.ttl)) ∧
    ∀ (m : Node) (later : UInt64), n.config.lease.ttl ≤ m.config.lease.ttl →
      1000 * m.config.lease.ttl < 2 ^ 64 → m.leaseAllocator.Grants now later → ends ≤ later := by
  have ttl (m : Node) : m.leaseAllocator.ttl = 1000 * m.config.lease.ttl := Nat.mul_comm _ _
  refine ⟨_, n.leaseAllocator.grants_expiration now, ?_, ?_, fun c same => ?_, fun m later le whole grants => ?_⟩
  · rw [LeaseAllocator.expiration_toNat, ttl]
  · rw [← ttl n]
    exact LeaseAllocator.expiration_exact_iff
  · rw [SubnetClaim.isExpired, decide_eq_true_iff, same, LeaseAllocator.expiration_le_iff, ttl, thousand_dvd_iff]
  · rw [grants.unique (m.leaseAllocator.grants_expiration now)]
    refine LeaseAllocator.expiration_le_expiration ?_ ?_ <;> simp only [ttl] <;> omega

/-! Nodes that differ in how long their leases are to last. -/

def lasting (seconds : Nat) : Node where
  config := { lease := { ttl := seconds } }
  identity := "me"
  pools := []

/-- A lease for ages is valid in a configuration and over when it is granted, and it ends before one for
a second. -/
theorem lease_for_ages_is_over : (lasting (2 ^ 61)).config.validate = .ok () ∧
    (lasting 1).config.validate = .ok () ∧ ∃ c s d t,
    ((lasting (2 ^ 61)).leaseAllocator.create halved "me" (half 0x0A000000)).outcome.run
        (Store.clocked 1000000) (.empty 100) = some (.ok (some c), s) ∧
      c.isExpired 1000000 = true ∧
      c.expiration.toNat ≠ min (1000000 + 1000 * 2 ^ 61) (2 ^ 64 - 1) ∧
      ((lasting 1).leaseAllocator.create halved "me" (half 0x0A000000)).outcome.run
        (Store.clocked 1000000) (.empty 100) = some (.ok (some d), t) ∧
      c.expiration < d.expiration := by
  refine ⟨rfl, rfl, _, _, _, _, rfl, ?_, ?_, rfl, ?_⟩ <;> decide

end Node

end NetPool
