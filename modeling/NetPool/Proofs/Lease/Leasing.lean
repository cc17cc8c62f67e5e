import NetPool.Allocation.Lease
import NetPool.Proofs.Keys
import NetPool.Proofs.Record
import NetPool.Proofs.Scene
import NetPool.Proofs.Store.Change

/-! Owners that lease subnets of one pool: a store, a clock, and what each caller has read. Nothing is
locked, so between a caller's look at a lease and his write of it others may have done anything. -/

namespace NetPool

/-- One pool of subnets. A caller acts for an owner, and an owner may have several callers. -/
structure LeasePool (ι : Type) where
  layout : KeyLayout
  pool : Pool
  owner : ι → String
  /-- How long an owner's leases last, in milliseconds. -/
  ttl : String → Nat

/-- A lease as it is granted: who has it, under which key, and when it ends. -/
structure Lease where
  owner : String
  key : String
  ends : UInt64
deriving DecidableEq

/-- Whose lease a value records, and when it ends. -/
def leaseOf (value : Bytes) : Option (String × UInt64) :=
  (ClaimRecord.decode? value).map fun r => (r.owner, r.expiration.getD 0xFFFFFFFFFFFFFFFF)

def KeyValue.lease (e : KeyValue) : Option (String × UInt64) := leaseOf e.value

theorem KeyValue.lease_inj {e : KeyValue} {o p : String} {a b : UInt64} (one : e.lease = some (o, a))
    (other : e.lease = some (p, b)) : o = p ∧ a = b := by
  rw [one] at other
  exact Prod.mk.inj (Option.some.inj other)

structure Leasing (ι : Type) where
  store : Store
  now : UInt64
  /-- The entries a caller has read last, without those he has deleted or written over since. -/
  seen : ι → List KeyValue
  /-- The keys that other callers of the same owner have written or deleted since. -/
  touched : ι → List String
  /-- The leases granted and not given back. -/
  granted : List Lease
  givenBack : List Lease
  /-- The keys that were put or deleted when the lease the caller had read there was gone. -/
  blind : List String

namespace LeasePool

variable {ι : Type}

def ending (l : LeasePool ι) (owner : String) (now : UInt64) : UInt64 :=
  Clock.addSaturating now (UInt64.ofNat (l.ttl owner))

def record (owner : String) (ends : UInt64) : Bytes :=
  ClaimRecord.encode { owner, expiration := some ends }

end LeasePool

theorem leaseOf_record (owner : String) (ends : UInt64) :
    leaseOf (LeasePool.record owner ends) = some (owner, ends) := by
  rw [leaseOf, LeasePool.record, ClaimRecord.decode?_encode]
  rfl

theorem heldBy_some {owner : String} {e : KeyValue} :
    heldBy owner (some e) = true ↔ ∃ ends, e.lease = some (owner, ends) := by
  cases decoded : ClaimRecord.decode? e.value with
  | none => simp [heldBy, KeyValue.lease, leaseOf, decoded]
  | some r => simp [heldBy, KeyValue.lease, leaseOf, decoded]

theorem SubnetClaim.ofEntry_eq_ok {l : KeyLayout} {e : KeyValue} {c : SubnetClaim} :
    SubnetClaim.ofEntry l e = .ok c ↔ l.parseSubnetKey e.key = some (c.pool, c.subnet) ∧
      e.lease = some (c.owner, c.expiration) := by
  unfold SubnetClaim.ofEntry KeyValue.lease leaseOf ClaimRecord.decode
  obtain ⟨pool, subnet, owner, expiration⟩ := c
  cases l.parseSubnetKey e.key with
  | none => simp
  | some slot =>
    cases ClaimRecord.decode? e.value with
    | none => simp [bind, Except.bind]
    | some r => simp [bind, Except.bind, pure, Except.pure, Prod.ext_iff, and_assoc]

namespace Leasing

variable {ι : Type}

/-- The key that a request puts or deletes, whatever stands there. -/
def overwrites : StoreRequest → Option String
  | .put key _ => some key
  | .delete key => some key
  | _ => none

/-- The lease that a request has granted, by the answer to it. -/
def grant : (r : StoreRequest) → Except StoreError r.Result → Option Lease
  | .create key value, .ok (.created _) => (leaseOf value).map fun x => ⟨x.1, key, x.2⟩
  | .put key value, .ok _ => (leaseOf value).map fun x => ⟨x.1, key, x.2⟩
  | _, _ => none

/-- Whether a request of an owner has given a lease back, by the answer to it. -/
def gaveBack (owner : String) : (r : StoreRequest) → Except StoreError r.Result → Lease → Bool
  | .delete key, .ok _, g => g.owner = owner && g.key = key
  | _, _, _ => false

/-- A caller has read a lease of his owner under a key, and it still stands there. -/
def sees (l : LeasePool ι) (s : Leasing ι) (i : ι) (key : String) : Bool :=
  (s.seen i).any fun e => e.key = key && heldBy (l.owner i) (some e) && s.store.entries.contains e

/-- A lease once granted is there, or has been given back. -/
def Grows (s t : Leasing ι) : Prop :=
  ∀ g, g ∈ s.granted ∨ g ∈ s.givenBack → g ∈ t.granted ∨ g ∈ t.givenBack

/-- What others leave to a caller: what he has read, the time, and while a lease that he has read
stands, nothing else is granted under its key. -/
structure Rely (i : ι) (s t : Leasing ι) : Prop where
  seen : t.seen i = s.seen i
  now : s.now ≤ t.now
  grows : Grows s t
  stands : ∀ e ∈ s.seen i, e ∈ t.store.entries →
    e ∈ s.store.entries ∧ ∀ g ∈ t.granted, g.key = e.key → g ∈ s.granted

theorem Rely.refl (i : ι) (s : Leasing ι) : Rely i s s :=
  ⟨rfl, UInt64.le_refl _, fun _ => id, fun _ _ here => ⟨here, fun _ mem _ => mem⟩⟩

theorem Rely.trans {i : ι} {s t u : Leasing ι} (first : Rely i s t) (second : Rely i t u) :
    Rely i s u := by
  refine ⟨second.seen.trans first.seen, UInt64.le_trans first.now second.now,
    fun g mem => second.grows g (first.grows g mem), fun e mem here => ?_⟩
  obtain ⟨there, later⟩ := second.stands e (first.seen ▸ mem) here
  obtain ⟨start, earlier⟩ := first.stands e mem there
  exact ⟨start, fun g mem same => earlier g (later g mem same) same⟩

/-- The lease that a put or a delete relies on lasts, and the owner's other callers have left it alone
since it was read. -/
def OnTime (l : LeasePool ι) (s : Leasing ι) (i : ι) (r : StoreRequest) : Prop :=
  ∀ key ∈ overwrites r, ∀ e ∈ s.seen i, e.key = key → ∀ lease ∈ e.lease, lease.1 = l.owner i →
    s.now < lease.2 ∧ key ∉ s.touched i

instance (l : LeasePool ι) (s : Leasing ι) (i : ι) (r : StoreRequest) : Decidable (s.OnTime l i r) :=
  inferInstanceAs (Decidable (∀ key ∈ overwrites r, ∀ e ∈ s.seen i, e.key = key →
    ∀ lease ∈ e.lease, lease.1 = l.owner i → s.now < lease.2 ∧ key ∉ s.touched i))

variable [DecidableEq ι]

def served (l : LeasePool ι) (s : Leasing ι) (i : ι) (r : StoreRequest)
    (x : Except StoreError r.Result) (store : Store) : Leasing ι where
  store := store
  now := s.now
  seen j := if j = i then (r.read x).getD ((s.seen i).filter fun e => some e.key ≠ r.wrote x)
    else s.seen j
  touched j := if j = i then (if (r.read x).isSome then [] else s.touched i)
    else if l.owner j = l.owner i then (r.wrote x).toList ++ s.touched j else s.touched j
  granted := (grant r x).toList ++ s.granted.filter fun g => ! gaveBack (l.owner i) r x g
  givenBack := s.granted.filter (gaveBack (l.owner i) r x) ++ s.givenBack
  blind := ((overwrites r).filter fun key => (r.wrote x).isSome && ! s.sees l i key).toList ++ s.blind

/-- An answer to a request. A request to the store may be lost. If all are to be punctual, what is put
or deleted is so on time. -/
def Answers (l : LeasePool ι) (punctual : Prop) (i : ι) (s : Leasing ι) :
    (r : Request) → r.Answer → Leasing ι → Prop
  | .store r, x, t => ((s.store.serve r).1 = some x ∧ (punctual → s.OnTime l i r) ∧
      t = s.served l i r x (s.store.serve r).2) ∨ (∃ e, x = .error e) ∧ t = s
  | .now, x, t => x = s.now ∧ t = s
  | _, _, t => t = s

/-- What a caller promises of a request to the store. -/
def Intends (l : LeasePool ι) (i : ι) (s : Leasing ι) : StoreRequest → Prop
  | .put key value => ∃ pool subnet ends, key = l.layout.subnetKey pool subnet ∧
      value = LeasePool.record (l.owner i) ends ∧ ends ≤ l.ending (l.owner i) s.now ∧
      (∃ e ∈ s.seen i, e.key = key ∧ ∃ before, e.lease = some (l.owner i, before)) ∧
      ∀ e ∈ s.seen i, e.key = key → e ∈ s.store.entries →
        ∀ g ∈ s.granted, g.key = key → g.owner = l.owner i → g.ends ≤ ends
  | .delete key => ∃ e ∈ s.seen i, e.key = key ∧ ∃ ends, e.lease = some (l.owner i, ends)
  | .create key value => ∃ subnet ends, key = l.layout.subnetKey l.pool.name subnet ∧
      l.pool.isCompatible subnet = true ∧ value = LeasePool.record (l.owner i) ends ∧
      ends ≤ l.ending (l.owner i) s.now
  | .compareAndDelete key modified => ∃ e ∈ s.seen i, e.key = key ∧ e.modified = modified ∧
      ∃ c, SubnetClaim.ofEntry l.layout e = .ok c ∧ (c.isExpired s.now = true ∨
        c.owner = l.owner i ∧ l.pool.isCompatible c.subnet = false)
  | _ => True

/-- The answer to a request, unless a caller who has to be punctual is late. -/
def reply (l : LeasePool ι) (punctual : Prop) [Decidable punctual] (i : ι) (s : Leasing ι) :
    (r : Request) → Option (r.Answer × Leasing ι)
  | .store r => if punctual → s.OnTime l i r then
      (s.store.serve r).1.map fun x => (x, s.served l i r x (s.store.serve r).2) else none
  | .now => some (s.now, s)
  | .sleep _ => some ((), s)
  | .pick bound => some (Fin.last bound, s)
  | _ => none

theorem reply_answers {l : LeasePool ι} {punctual : Prop} [Decidable punctual] {i : ι}
    {s t : Leasing ι} {r : Request} {x : r.Answer} (answered : reply l punctual i s r = some (x, t)) :
    Answers l punctual i s r x t := by
  cases r with
  | store r =>
    simp only [reply] at answered
    split at answered
    · rename_i timely
      obtain ⟨y, served, same⟩ := Option.map_eq_some_iff.1 answered
      cases same
      exact .inl ⟨served, timely, rfl⟩
    · cases answered
  | now =>
    cases answered
    exact ⟨rfl, rfl⟩
  | sleep | pick =>
    cases answered
    exact rfl
  | cache | chore | instant | isLive | apply => cases answered

/-- A lease stands in the store, or its key is one that is absent and never created. -/
def Backed (l : LeasePool ι) (s : Leasing ι) (g : Lease) : Prop :=
  (∃ e ∈ s.store.entries, e.key = g.key ∧ ∃ ends, e.lease = some (g.owner, ends) ∧ g.ends ≤ ends) ∨
    (∀ e ∈ s.store.entries, e.key ≠ g.key) ∧
      ∀ subnet, l.pool.isCompatible subnet = true → g.key ≠ l.layout.subnetKey l.pool.name subnet

/-- What holds until a lease is written over, or deleted, by a caller who does not see it any more. -/
structure Clear (l : LeasePool ι) (s : Leasing ι) : Prop where
  /-- A lease stays as its owner's caller has read it, until it ends or another caller of his writes. -/
  current : ∀ i, ∀ e ∈ s.seen i, ∀ ends, e.lease = some (l.owner i, ends) → s.now < ends →
    e.key ∉ s.touched i → e ∈ s.store.entries
  backed : ∀ g ∈ s.granted, s.now < g.ends → s.Backed l g
  single : ∀ g ∈ s.granted, ∀ h ∈ s.granted, g.key = h.key → s.now < g.ends → s.now < h.ends →
    g.owner = h.owner

structure Sound (l : LeasePool ι) (punctual : Prop) (s : Leasing ι) : Prop where
  ascending : Store.Ascending s.store.entries
  canonical : ∀ e ∈ s.store.entries, startsWith e.key (l.layout.claimStart .subnet l.pool.name) = true →
    ∀ c, SubnetClaim.ofEntry l.layout e = .ok c → l.layout.subnetKey c.pool c.subnet = e.key
  dated : ∀ e ∈ s.store.entries, e.modified ≤ s.store.revision
  read : ∀ i, ∀ e ∈ s.seen i, e.modified ≤ s.store.revision
  same : ∀ i, ∀ e ∈ s.seen i, ∀ f ∈ s.store.entries, f.key = e.key → f.modified = e.modified → f = e
  bounded : ∀ g ∈ s.granted, g.ends ≤ l.ending g.owner s.now
  clear : s.blind = [] → s.Clear l
  sighted : punctual → s.blind = []

end Leasing

end NetPool
