import NetPool.Endpoint.Registry
import NetPool.Proofs.Record
import NetPool.Proofs.Sighting
import NetPool.Reconcile.Sweep

/-! Records that are removed because of their owner: all of a node that has left, and an endpoint that a
node withdraws. The owner is looked up first, and then the record goes by its key. -/

namespace NetPool

/-- The entry is a record of a node. -/
def Owned (identity : String) (e : KeyValue) : Prop :=
  ∃ record, ClaimRecord.decode? e.value = some record ∧ record.owner = identity

theorem owned_iff {identity : String} {e : KeyValue} :
    sweepEntries.heldByOwner identity e = true ↔ Owned identity e := by
  simp [sweepEntries.heldByOwner, Owned]

inductive RecordCall
  | sweep (identity : String)
  | deregister (identity device : String) (address : Address)
  | register (identity device : String) (address : Address)
deriving DecidableEq

namespace RecordCall

variable (l : KeyLayout)

def program : RecordCall → Program Unit
  | sweep identity => (NetPool.sweep l identity).outcome.bind fun _ => .pure ()
  | deregister identity device address =>
    (EndpointRegistry.deregister ⟨l, identity⟩ device address).outcome.bind fun _ => .pure ()
  | register identity device address =>
    (EndpointRegistry.register ⟨l, identity⟩ device address).outcome.bind fun _ => .pure ()

/-- By what its caller knows, a call has a reason to remove an entry. -/
def Reason (k : Knowledge) (d : KeyValue) : RecordCall → Prop
  | sweep identity => d ∈ k.seen ∧ startsWith d.key l.rootStart = true ∧ Owned identity d
  | deregister identity device address =>
    d ∈ k.seen ∧ d.key = l.endpointKey device address ∧ Owned identity d
  | register _ _ _ => False

def grounds (call : RecordCall) : Sighting.Grounds := fun k d key => Reason l k d call ∧ key = d.key

open Sighting

variable {l} {ι : Type} [DecidableEq ι] {i : ι} {s t : Sighting ι} {identity device : String}
  {address : Address}

/-- The rest of what was read. -/
def Rest (l : KeyLayout) (entries : List KeyValue) (k : Knowledge) : Prop :=
  ∀ d ∈ entries, d ∈ k.seen ∧ startsWith d.key l.rootStart = true

theorem sweepEntries_safe {entries : List KeyValue} {n : Nat} (sound : s.Sound)
    (rest : Rest l entries (s.known i)) :
    Safe (terms (grounds l (sweep identity)) i) (fun _ _ => True) (sweepEntries identity entries n) s := by
  induction entries generalizing n s with
  | nil => exact fun _ _ _ => trivial
  | cons d more ih =>
    have tail {k : Knowledge} (rest : Rest l (d :: more) k) : Rest l more k :=
      fun e mem => rest e (List.mem_cons_of_mem d mem)
    unfold sweepEntries
    split
    · rename_i held
      rw [Operation.store_bind]
      refine stored (fun _ => Rest l more) (fun {t x u} rely sound answer => ?_)
        (fun rely _ answer => answer.known ▸ rely ▸ tail rest) fun sound rest => ih sound rest
      obtain ⟨seen, below⟩ := rely ▸ rest d List.mem_cons_self
      exact answer.removes (Knowledge.mem_entries.2 (.inr seen)) ⟨⟨seen, below, owned_iff.1 held⟩, rfl⟩
    · exact ih sound (tail rest)

theorem sweep_safe : Safe (terms (grounds l (sweep identity)) i) (fun _ _ => True)
    (NetPool.sweep l identity) s := by
  unfold NetPool.sweep
  rw [Operation.store_bind]
  refine stored (fun found => Rest l found.entries)
    (fun _ sound answer => answer.removes_nothing sound rfl)
    (fun {t found u} _ sound answer d mem => ⟨answer.known ▸ mem, ?_⟩) fun {found u} sound rest => ?_
  · rw [Store.Answered.range answer.1 sound.dated] at mem
    exact (List.mem_filter.1 mem).2
  · rw [Operation.bind_eq]
    refine Safe.bind (sweepEntries_safe sound rest) sound ?_
    rintro (e | n) v - - w - - <;> trivial

theorem deregister_safe : Safe (terms (grounds l (deregister identity device address)) i) (fun _ _ => True)
    (EndpointRegistry.deregister ⟨l, identity⟩ device address) s := by
  unfold EndpointRegistry.deregister
  rw [Operation.store_bind]
  refine stored (fun found k => ∀ d ∈ found, d ∈ k.seen ∧ d.key = l.endpointKey device address)
    (fun _ sound answer => answer.removes_nothing sound rfl)
    (fun {t found u} _ sound answer d mem => ⟨?_, ?_⟩) fun {found u} sound seen => ?_
  · rw [answer.known]
    exact Option.mem_toList.2 mem
  · rw [Store.Answered.get answer.1] at mem
    exact Store.find?_key mem
  · cases found with
    | none => exact fun _ _ _ => trivial
    | some d =>
      obtain ⟨here, key⟩ := seen d rfl
      dsimp only
      unfold ClaimRecord.decode
      cases decoded : ClaimRecord.decode? d.value with
      | none => exact fun _ _ _ => trivial
      | some record =>
        change Safe _ _ (if record.owner ≠ identity then (pure false : Operation Bool)
          else Operation.store (.delete (l.endpointKey device address))) u
        split
        · exact fun _ _ _ => trivial
        · rename_i same
          intro v rely sound x w answer
          have reason : grounds l (deregister identity device address) (v.known i) d
              (l.endpointKey device address) :=
            ⟨⟨rely ▸ here, key, record, decoded, Decidable.not_not.1 same⟩, key.symm⟩
          obtain ⟨valid, done⟩ := asked sound answer
            (answer.removes (Knowledge.mem_entries.2 (.inr (rely ▸ here))) reason)
          exact ⟨valid, done, fun _ _ _ => trivial⟩

theorem register_safe : Safe (terms (grounds l (register identity device address)) i) (fun _ _ => True)
    (EndpointRegistry.register ⟨l, identity⟩ device address) s := by
  unfold EndpointRegistry.register
  rw [Operation.underLock_eq]
  refine stored (fun _ _ => True) (fun _ sound answer => answer.removes_nothing sound rfl)
    (fun _ _ _ => trivial) fun {grant u} sound _ => ?_
  refine Safe.bind (?_ : Safe _ (fun _ _ => True) _ u) sound fun x v sound _ => ?_
  · rw [Operation.store_bind]
    refine stored (fun _ _ => True) (fun _ sound answer => answer.removes_nothing sound rfl)
      (fun _ _ _ => trivial) fun {outcome v} sound _ => ?_
    cases outcome <;> exact fun _ _ _ => trivial
  · intro w rely sound y z answer
    obtain ⟨valid, done⟩ := asked sound answer (answer.removes_nothing sound rfl)
    exact ⟨valid, done, fun _ _ _ => trivial⟩

theorem program_safe (call : RecordCall) (i : ι) (s : Sighting ι) (sound : s.Sound) :
    Safe (terms (grounds l call) i) (fun _ _ => True) (program l call) s := by
  have last {β : Type} {o : Operation β} (safe : Safe (terms (grounds l call) i) (fun _ _ => True) o s) :
      Safe (terms (grounds l call) i) (fun _ _ => True) (o.outcome.bind fun _ => .pure ()) s :=
    Safe.bind safe sound fun _ _ _ _ _ _ _ => trivial
  cases call with
  | sweep identity => exact last sweep_safe
  | deregister identity device address => exact last deregister_safe
  | register identity device address => exact last register_safe

/-- Any number of callers sweep, withdraw and publish records, whatever else happens to the store. An
entry that one of them removes is one that he has read, and that is a record of the node in question,
unless it was written under the key after that one had gone. -/
theorem removed_records {duty : ι → RecordCall} (sound : s.Sound)
    {c : Scene (Sighting ι) ι RecordCall Unit} (reached : Scene.Reached (stage (program l) duty) s c)
    {call : RecordCall} {r : Request} {next : r.Answer → Program Unit}
    (waits : c.running i = some (call, .ask r next)) {x : r.Answer} (answer : Answers i c.shared r x t)
    {e : KeyValue} (mem : e ∈ c.shared.store.entries) (gone : e ∉ t.store.entries) :
    r = .store (.delete e.key) ∧ ∃ d, Reason l (c.shared.known i) d call ∧
      (e = d ∨ c.shared.store.Replaced d e) := by
  obtain ⟨request, d, _, ⟨reason, key⟩, same⟩ :=
    removed_for_reason program_safe sound reached waits answer mem gone
  exact ⟨request, d, reason, same key⟩

/-! A caller is named by his call. -/

def ofGateway (identity : String) (revision : Nat) : KeyValue :=
  ⟨KeyLayout.standard.endpointKey "vx0" 0x0A000001, (ClaimRecord.ofOwner identity).encode,
    revision, revision⟩

def sweeper (second : Bool) : Bool × RecordCall := (second, .sweep "gone")

def publisher (identity : String) : Bool × RecordCall := (false, .register identity "vx0" 0x0A000001)

def published (identity : String) : List (Scene.Turn (Bool × RecordCall) RecordCall) :=
  let i := publisher identity
  [.call i i.2, .answer i, .answer i, .answer i, .finish i]

theorem departed_endpoint_swept : (blank : Sighting (Bool × RecordCall)).Sound ∧ ∃ c r next x t,
    Scene.Reached (stage (program .standard) Prod.snd) blank c ∧
    c.running (sweeper false) = some (.sweep "gone", .ask r next) ∧ Answers (sweeper false) c.shared r x t ∧
    ofGateway "gone" 1 ∈ c.shared.store.entries ∧ ofGateway "gone" 1 ∉ t.store.entries ∧
    r = .store (.delete (ofGateway "gone" 1).key) ∧ ∃ d,
      Reason .standard (c.shared.known (sweeper false)) d (.sweep "gone") ∧
      (ofGateway "gone" 1 = d ∨ c.shared.store.Replaced d (ofGateway "gone" 1)) := by
  obtain ⟨c, r, next, x, t, reached, waits, answer, mem, gone⟩ := removal_played (program .standard)
    Prod.snd blank (fun bound => ⟨0, bound.succ_pos⟩) (fun _ => true)
    (published "gone" ++ [.call (sweeper false) (.sweep "gone"), .answer (sweeper false)])
    (sweeper false) (ofGateway "gone" 1) (by decide +kernel) (by decide +kernel)
  exact ⟨blank_sound, c, r, next, x, t, reached, waits, answer, mem, gone,
    removed_records blank_sound reached waits answer mem gone⟩

/-- While a caller is about to sweep a record, another one has swept it, and a node that stays has
published one of its own under the key. -/
theorem other_owner_swept : ∃ c r next x t,
    Scene.Reached (stage (program .standard) Prod.snd) (blank : Sighting (Bool × RecordCall)) c ∧
    c.running (sweeper true) = some (.sweep "gone", .ask r next) ∧ Answers (sweeper true) c.shared r x t ∧
    ofGateway "stay" 3 ∈ c.shared.store.entries ∧ ofGateway "stay" 3 ∉ t.store.entries ∧
    Owned "stay" (ofGateway "stay" 3) := by
  obtain ⟨c, r, next, x, t, reached, waits, answer, mem, gone⟩ := removal_played (program .standard)
    Prod.snd blank (fun bound => ⟨0, bound.succ_pos⟩) (fun _ => true)
    (published "gone" ++ [.call (sweeper true) (.sweep "gone"), .answer (sweeper true),
      .call (sweeper false) (.sweep "gone"), .answer (sweeper false), .answer (sweeper false),
      .finish (sweeper false)] ++ published "stay")
    (sweeper true) (ofGateway "stay" 3) (by decide +kernel) (by decide +kernel)
  exact ⟨c, r, next, x, t, reached, waits, answer, mem, gone, .ofOwner "stay",
    ClaimRecord.decode?_encode _, rfl⟩

end RecordCall

end NetPool
