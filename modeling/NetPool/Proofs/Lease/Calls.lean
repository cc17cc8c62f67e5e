import NetPool.Proofs.Interference
import NetPool.Proofs.Lease.Effect
import NetPool.Proofs.Subnet

/-! Acquiring, renewing and releasing a lease, request by request. -/

namespace NetPool

namespace LeaseAllocator

variable (a : LeaseAllocator)

theorem write_eq (c : SubnetClaim) : a.write c = Program.ask .now fun now =>
    .ask (.store (.put (a.layout.subnetKey c.pool c.subnet)
      (LeasePool.record c.owner (a.expiration now))))
      (Program.onwardStored fun _ => .pure (.ok { c with expiration := a.expiration now })) := by
  change Program.ask _ _ = _
  congr 1
  funext now
  change Program.ask _ _ = Program.ask _ _
  congr 1
  funext x
  cases x <;> rfl

theorem renew_eq (c : SubnetClaim) : a.renew c =
    .ask (.store (.get (a.layout.subnetKey c.pool c.subnet))) (Program.onwardStored fun found =>
      if heldBy c.owner found then a.write c else .pure (.error c.revoked)) := by
  change Program.ask _ _ = Program.ask _ _
  congr 1
  funext x
  cases x <;> rfl

theorem release_eq (c : SubnetClaim) : a.release c =
    .ask (.store (.get (a.layout.subnetKey c.pool c.subnet))) (Program.onwardStored fun found =>
      if heldBy c.owner found then
        .ask (.store (.delete (a.layout.subnetKey c.pool c.subnet)))
          (Program.onwardStored fun _ => .pure (.ok ()))
      else .pure (.ok ())) := by
  change Program.ask _ _ = Program.ask _ _
  congr 1
  funext x
  cases x with
  | error e => rfl
  | ok found =>
    change (if heldBy c.owner found then _ else _ : Operation Unit) = _
    change _ = (if heldBy c.owner found then _ else _ : Operation Unit)
    split
    · change Program.ask _ _ = Program.ask _ _
      congr 1
      funext x
      cases x <;> rfl
    · rfl

theorem live_malformed {p : Pool} {owner : String} {now : UInt64} {e : KeyValue} {rest : List KeyValue}
    {failure : Failure} (read : SubnetClaim.ofEntry a.layout e = .error failure) :
    a.live p owner now (e :: rest) = a.live p owner now rest := by
  rw [live, read]

theorem live_expired {p : Pool} {owner : String} {now : UInt64} {e : KeyValue} {rest : List KeyValue}
    {c : SubnetClaim} (read : SubnetClaim.ofEntry a.layout e = .ok c) (expired : c.isExpired now = true) :
    a.live p owner now (e :: rest) = .ask (.store (.compareAndDelete e.key e.modified))
      (Program.onwardStored fun gone => Program.bind (a.live p owner now rest)
        (Program.onward fun others => .pure (.ok (if gone then others else c :: others)))) := by
  rw [live, read]
  change (if c.isExpired now then _ else _ : Operation _) = _
  rw [if_pos expired, Operation.store_bind]
  simp only [Operation.bind_eq]
  rfl

theorem live_incompatible {p : Pool} {owner : String} {now : UInt64} {e : KeyValue}
    {rest : List KeyValue} {c : SubnetClaim} (read : SubnetClaim.ofEntry a.layout e = .ok c)
    (current : ¬ c.isExpired now = true) (unfit : c.owner = owner ∧ ¬ p.isCompatible c.subnet = true) :
    a.live p owner now (e :: rest) = .ask (.store (.compareAndDelete e.key e.modified))
      (Program.onwardStored fun _ => a.live p owner now rest) := by
  rw [live, read]
  change (if c.isExpired now then _ else if _ then _ else _ : Operation _) = _
  rw [if_neg current, if_pos unfit]
  change Program.ask _ _ = Program.ask _ _
  congr 1
  funext x
  cases x <;> rfl

theorem live_other {p : Pool} {owner : String} {now : UInt64} {e : KeyValue} {rest : List KeyValue}
    {c : SubnetClaim} (read : SubnetClaim.ofEntry a.layout e = .ok c)
    (current : ¬ c.isExpired now = true) (fits : ¬ (c.owner = owner ∧ ¬ p.isCompatible c.subnet = true)) :
    a.live p owner now (e :: rest) = Program.bind (a.live p owner now rest)
      (Program.onward fun others => .pure (.ok (c :: others))) := by
  rw [live, read]
  change (if c.isExpired now then _ else if _ then _ else _ : Operation _) = _
  rw [if_neg current, if_neg fits, Operation.bind_eq]
  rfl

def made (c : SubnetClaim) : Creation → Option SubnetClaim
  | .created _ => some c
  | .alreadyExists => none

theorem create_eq (p : Pool) (owner : String) (subnet : Subnet) : a.create p owner subnet =
    Program.ask .now fun now =>
      .ask (.store (.create (a.layout.subnetKey p.name subnet) (LeasePool.record owner (a.expiration now))))
        (Program.onwardStored fun outcome =>
          .pure (.ok (made ⟨p.name, subnet, owner, a.expiration now⟩ outcome))) := by
  change Program.ask _ _ = _
  congr 1
  funext now
  change Program.ask _ _ = Program.ask _ _
  congr 1
  funext x
  cases x with
  | error e => rfl
  | ok outcome => cases outcome <;> rfl

def settle (p : Pool) (owner : String) (previous : Option Subnet) (live : List SubnetClaim) :
    Operation (Option SubnetClaim) :=
  match live.find? (·.owner = owner), reclaimable p live previous with
  | some mine, _ => return some (← a.write mine)
  | none, none => a.createAny p owner live
  | none, some s =>
    do match ← a.create p owner s with
      | some c => return some c
      | none => a.createAny p owner live

theorem tryAcquire_eq (p : Pool) (owner : String) (previous : Option Subnet) :
    a.tryAcquire p owner previous = .ask .now fun now =>
      .ask (.store (.range (a.layout.claimStart .subnet p.name))) (Program.onwardStored fun found =>
        Program.bind (a.live p owner now found.entries) (Program.onward (a.settle p owner previous))) := by
  change Program.ask _ _ = _
  congr 1
  funext now
  change Program.ask _ _ = Program.ask _ _
  congr 1
  funext x
  cases x with
  | error e => rfl
  | ok found => exact Operation.bind_eq _ _

end LeaseAllocator

inductive LeaseCall
  | acquire (retry : Retry) (owner : String) (previous : Option Subnet)
  | renew (claim : SubnetClaim)
  | release (claim : SubnetClaim)
deriving DecidableEq

/-- Whom a call is made for. -/
def LeaseCall.owner : LeaseCall → String
  | .acquire _ owner _ => owner
  | .renew claim => claim.owner
  | .release claim => claim.owner

namespace LeasePool

variable {ι : Type}

def allocator (l : LeasePool ι) (owner : String) (retry : Retry) : LeaseAllocator :=
  ⟨l.layout, l.ttl owner, retry⟩

/-- What a call does; what it comes to is the lease that is returned, if there is one. -/
def program (l : LeasePool ι) : LeaseCall → Program (Option SubnetClaim)
  | .acquire retry owner previous =>
    ((l.allocator owner retry).acquire l.pool owner previous).outcome.bind fun x => .pure x.toOption
  | .renew claim =>
    ((l.allocator claim.owner ⟨0, 0⟩).renew claim).outcome.bind fun x => .pure x.toOption
  | .release claim => ((l.allocator claim.owner ⟨0, 0⟩).release claim).outcome.bind fun _ => .pure none

/-- Calls for the owners, on one clock that goes on between any two requests. -/
def stage [DecidableEq ι] (l : LeasePool ι) (punctual : Prop) :
    Stage (Leasing ι) ι LeaseCall (Option SubnetClaim) where
  program := l.program
  allowed i k := k.owner = l.owner i
  answers := Leasing.Answers l punctual
  moves s t := ∃ now, s.now ≤ now ∧ t = { s with now }

def lease (l : LeasePool ι) (c : SubnetClaim) : Lease :=
  ⟨c.owner, l.layout.subnetKey c.pool c.subnet, c.expiration⟩

end LeasePool

namespace Leasing

variable {ι : Type} [DecidableEq ι]

/-- A claim has been granted to the owner; it may have been given back since. -/
def Had (l : LeasePool ι) (owner : String) (c : SubnetClaim) (s : Leasing ι) : Prop :=
  c.owner = owner ∧ (l.lease c ∈ s.granted ∨ l.lease c ∈ s.givenBack)

omit [DecidableEq ι] in
theorem Had.stays {l : LeasePool ι} {owner : String} {c : SubnetClaim} {s t : Leasing ι}
    (grows : Grows s t) (had : Had l owner c s) : Had l owner c t := ⟨had.1, grows _ had.2⟩

/-- What the callers keep: each request to the store is as intended, and what is returned has been
granted. -/
def leasing (l : LeasePool ι) (punctual : Prop) : Agreement (l.stage punctual) where
  valid := Sound l punctual
  rely := Rely
  does i s r t := (∀ q, r = .store q → s.Intends l i q) ∧ Grows s t
  idle _ _ := True
  fact k a s := ∀ c ∈ a, Had l k.owner c s
  refl := Rely.refl
  trans := Rely.trans
  idle_rely _ _ := trivial
  lasts does had c mem := (had c mem).stays does.2
  moves := by
    rintro s t sound ⟨now, le, rfl⟩
    exact ⟨sound.later le, fun _ _ had => had,
      fun i => ⟨rfl, le, fun _ => id, fun _ _ here => ⟨here, fun _ mem _ => mem⟩⟩⟩

variable {l : LeasePool ι} {punctual : Prop} {i : ι} {s : Leasing ι} {α : Type}

theorem now_safe {post : α → Leasing ι → Prop} {next : UInt64 → Program α}
    (rest : ∀ t, Rely i s t → Sound l punctual t →
      Safe ((leasing l punctual).terms i) post (next t.now) t) :
    Safe ((leasing l punctual).terms i) post (.ask .now next) s := by
  intro t rely sound now u answer
  obtain ⟨rfl, rfl⟩ := answer
  exact ⟨sound, ⟨⟨nofun, fun _ => id⟩, fun j _ => Rely.refl j _⟩, rest _ rely sound⟩

/-- What follows a request to the store that is answered; if it fails, so does the operation. -/
theorem request_safe {r : StoreRequest} {f : r.Result → Program (Except Failure α)}
    {ok : α → Leasing ι → Prop}
    (intends : ∀ t, Rely i s t → Sound l punctual t → t.Intends l i r)
    (rest : ∀ t x, Rely i s t → Sound l punctual t → (t.store.serve r).1 = some (.ok x) →
      Sound l punctual (t.served l i r (.ok x) (t.store.serve r).2) →
      Safe ((leasing l punctual).terms i) (Safe.Outcome ok fun _ => True) (f x)
        (t.served l i r (.ok x) (t.store.serve r).2)) :
    Safe ((leasing l punctual).terms i) (Safe.Outcome ok fun _ => True)
      (.ask (.store r) (Program.onwardStored f)) s := by
  intro t rely sound x u answer
  have means := intends t rely sound
  have intended : ∀ q, Request.store r = .store q → t.Intends l i q := by
    rintro q ⟨⟩
    exact means
  rcases answer with ⟨answer, prompt, rfl⟩ | ⟨⟨e, rfl⟩, rfl⟩
  · have after := sound.served means answer prompt
    refine ⟨after, ⟨⟨intended, grows_served⟩, fun j other => sound.rely means answer other⟩, ?_⟩
    cases x with
    | error e => exact fun _ _ _ => trivial
    | ok a => exact rest t a rely sound answer after
  · exact ⟨sound, ⟨⟨intended, fun _ => id⟩, fun j _ => Rely.refl j _⟩, fun _ _ _ => trivial⟩

theorem write_safe {retry : Retry} {c : SubnetClaim} (mine : c.owner = l.owner i)
    (relies : ∃ e ∈ s.seen i, e.key = l.layout.subnetKey c.pool c.subnet ∧
      ∃ ends, e.lease = some (l.owner i, ends)) :
    Safe ((leasing l punctual).terms i) (Safe.Outcome (Had l (l.owner i)) fun _ => True)
      ((l.allocator c.owner retry).write c) s := by
  rw [LeaseAllocator.write_eq]
  refine now_safe fun t rely sound => ?_
  -- Whatever is granted to the owner until now ends by the new end.
  refine request_safe (fun u later _ => ?_) fun u x later _ answer _ v rely _ => ?_
  · obtain ⟨e, mem, key, lease⟩ := relies
    have seen : e ∈ t.seen i := rely.seen.symm ▸ mem
    refine ⟨c.pool, c.subnet, l.ending c.owner t.now, rfl, by rw [mine]; rfl, ?_,
      ⟨e, later.seen.symm ▸ seen, key, lease⟩, fun f mem key here g granted same owner => ?_⟩
    · rw [mine]
      exact Clock.addSaturating_mono later.now _
    · have old := (later.stands f (later.seen ▸ mem) here).2 g granted (same.trans key.symm)
      rw [mine, ← owner]
      exact sound.bounded g old
  · refine Had.stays rely.grows ⟨mine, .inl ?_⟩
    have granted := leaseOf_record c.owner (l.ending c.owner t.now)
    change _ ∈ (grant (.put _ _) (.ok x)).toList ++ _
    simp only [grant]
    exact List.mem_append_left _ (Option.mem_toList.2 (congrArg _ granted))

theorem create_safe {retry : Retry} {subnet : Subnet} (compatible : l.pool.isCompatible subnet = true) :
    Safe ((leasing l punctual).terms i) (Safe.Outcome (fun d t => ∀ c ∈ d, Had l (l.owner i) c t)
      fun _ => True) ((l.allocator (l.owner i) retry).create l.pool (l.owner i) subnet) s := by
  rw [LeaseAllocator.create_eq]
  refine now_safe fun t _ _ => request_safe (fun u later _ => ?_) fun u x _ _ _ _ v rely _ c mem => ?_
  · exact ⟨subnet, l.ending (l.owner i) t.now, rfl, compatible, rfl, Clock.addSaturating_mono later.now _⟩
  · cases x with
    | alreadyExists => cases mem
    | created revision =>
      cases mem
      refine Had.stays rely.grows ⟨rfl, .inl ?_⟩
      have granted := leaseOf_record (l.owner i) (l.ending (l.owner i) t.now)
      change _ ∈ (grant (.create _ _) (.ok (.created revision))).toList ++ _
      simp only [grant]
      exact List.mem_append_left _ (Option.mem_toList.2 (congrArg _ granted))

theorem isExpired_later {c : SubnetClaim} {now later : UInt64} (le : now ≤ later)
    (expired : c.isExpired now = true) : c.isExpired later = true :=
  decide_eq_true (UInt64.le_trans (of_decide_eq_true expired) le)

theorem seen_reaped {e f : KeyValue} {x : Bool} {store : Store} (mem : f ∈ s.seen i)
    (left : x = true → f.key ≠ e.key) :
    f ∈ (s.served l i (.compareAndDelete e.key e.modified) (.ok x) store).seen i := by
  cases x with
  | false => simpa [served, StoreRequest.read, StoreRequest.wrote] using mem
  | true => simpa [served, StoreRequest.read, StoreRequest.wrote] using ⟨mem, left rfl⟩

/-- Each lease that counts was read from an entry that the caller has not deleted, and entries that are
not looked through are left alone. -/
structure Live (l : LeasePool ι) (i : ι) (entries : List KeyValue) (s : Leasing ι)
    (live : List SubnetClaim) (t : Leasing ι) : Prop where
  read : ∀ c ∈ live, ∃ e ∈ entries, e ∈ t.seen i ∧ SubnetClaim.ofEntry l.layout e = .ok c
  rest : ∀ e ∈ s.seen i, (∀ f ∈ entries, f.key ≠ e.key) → e ∈ t.seen i

section Live

variable {entries : List KeyValue} {live : List SubnetClaim} {t u : Leasing ι} {e : KeyValue}

omit [DecidableEq ι] in
theorem Live.stays (found : Live l i entries s live t) (rely : Rely i t u) : Live l i entries s live u :=
  ⟨fun c mem => rely.seen.symm ▸ found.read c mem, fun e mem apart => rely.seen.symm ▸ found.rest e mem apart⟩

omit [DecidableEq ι] in
theorem Live.skip (found : Live l i entries u live t)
    (left : ∀ f ∈ s.seen i, f.key ≠ e.key → f ∈ u.seen i) : Live l i (e :: entries) s live t := by
  refine ⟨fun c mem => ?_, fun f mem apart => ?_⟩
  · obtain ⟨f, here, rest⟩ := found.read c mem
    exact ⟨f, List.mem_cons_of_mem e here, rest⟩
  · exact found.rest f (left f mem (apart e List.mem_cons_self).symm) fun g more =>
      apart g (List.mem_cons_of_mem e more)

omit [DecidableEq ι] in
theorem Live.cons {c : SubnetClaim} (found : Live l i entries u live t)
    (left : ∀ f ∈ s.seen i, f.key ≠ e.key → f ∈ u.seen i) (here : e ∈ u.seen i)
    (first : ∀ f ∈ entries, e.key ≠ f.key) (read : SubnetClaim.ofEntry l.layout e = .ok c) :
    Live l i (e :: entries) s (c :: live) t := by
  refine ⟨fun d mem => ?_, (found.skip left).rest⟩
  rcases List.mem_cons.1 mem with rfl | mem
  · exact ⟨e, List.mem_cons_self, found.rest e here fun f mem => (first f mem).symm, read⟩
  · exact (found.skip left).read d mem

end Live

theorem live_safe {retry : Retry} {now : UInt64} {entries : List KeyValue}
    (distinct : entries.Pairwise (·.key ≠ ·.key)) (known : ∀ e ∈ entries, e ∈ s.seen i)
    (past : now ≤ s.now) (sound : Sound l punctual s) :
    Safe ((leasing l punctual).terms i) (Safe.Outcome (Live l i entries s) fun _ => True)
      ((l.allocator (l.owner i) retry).live l.pool (l.owner i) now entries) s := by
  induction entries generalizing s with
  | nil =>
    intro t rely _
    exact ⟨nofun, fun e mem _ => rely.seen.symm ▸ mem⟩
  | cons e rest ih =>
    obtain ⟨first, others⟩ := List.pairwise_cons.1 distinct
    have behind : ∀ f ∈ rest, f ∈ s.seen i := fun f mem => known f (List.mem_cons_of_mem e mem)
    have seen {t : Leasing ι} (rely : Rely i s t) {f : KeyValue} (mem : f ∈ s.seen i) :
        f ∈ t.seen i := rely.seen.symm ▸ mem
    cases read : SubnetClaim.ofEntry l.layout e with
    | error failure =>
      rw [LeaseAllocator.live_malformed (l.allocator (l.owner i) retry) read]
      refine (ih others behind past sound).weaken fun x t _ reached => ?_
      cases x with
      | error => trivial
      | ok live => exact Live.skip reached fun f mem _ => mem
    | ok c =>
      by_cases expired : c.isExpired now = true
      · rw [LeaseAllocator.live_expired (l.allocator (l.owner i) retry) read expired]
        refine request_safe (fun t rely _ => ?_) fun t gone rely _ _ after => ?_
        · exact ⟨e, seen rely (known e List.mem_cons_self), rfl, rfl, c, read,
            .inl (isExpired_later (UInt64.le_trans past rely.now) expired)⟩
        · have following := ih others
            (fun f mem => seen_reaped (seen rely (behind f mem)) fun _ => (first f mem).symm)
            (UInt64.le_trans past rely.now) after
          refine Safe.bind following after fun x u _ reached => ?_
          cases x with
          | error failure => exact fun _ _ _ => trivial
          | ok live =>
            intro v later _
            have found : Live l i rest _ live v := Live.stays reached later
            cases gone with
            | true =>
              exact found.skip fun f mem other => seen_reaped (seen rely mem) fun _ => other
            | false =>
              exact found.cons (fun f mem _ => seen_reaped (seen rely mem) nofun)
                (seen_reaped (seen rely (known e List.mem_cons_self)) nofun) first read
      · by_cases unfit : c.owner = l.owner i ∧ ¬ l.pool.isCompatible c.subnet = true
        · rw [LeaseAllocator.live_incompatible (l.allocator (l.owner i) retry) read expired unfit]
          refine request_safe (fun t rely _ => ?_) fun t gone rely _ _ after => ?_
          · exact ⟨e, seen rely (known e List.mem_cons_self), rfl, rfl, c, read,
              .inr ⟨unfit.1, Bool.eq_false_iff.2 unfit.2⟩⟩
          · have following := ih others
              (fun f mem => seen_reaped (seen rely (behind f mem)) fun _ => (first f mem).symm)
              (UInt64.le_trans past rely.now) after
            refine following.weaken fun x u _ reached => ?_
            cases x with
            | error => trivial
            | ok live =>
              exact Live.skip reached fun f mem other => seen_reaped (seen rely mem) fun _ => other
        · rw [LeaseAllocator.live_other (l.allocator (l.owner i) retry) read expired unfit]
          refine Safe.bind (ih others behind past sound) sound fun x u _ reached => ?_
          cases x with
          | error failure => exact fun _ _ _ => trivial
          | ok live =>
            intro v later _
            have found : Live l i rest s live v := Live.stays reached later
            exact found.cons (fun f mem _ => mem) (known e List.mem_cons_self) first read

abbrev Won (l : LeasePool ι) (i : ι) (d : Option SubnetClaim) (s : Leasing ι) : Prop :=
  ∀ c ∈ d, Had l (l.owner i) c s

theorem createAny_safe {retry : Retry} {live : List SubnetClaim} :
    Safe ((leasing l punctual).terms i) (Safe.Outcome (Won l i) fun _ => True)
      ((l.allocator (l.owner i) retry).createAny l.pool (l.owner i) live) s := by
  unfold LeaseAllocator.createAny
  split
  · exact fun _ _ _ => trivial
  · rename_i first rest found
    intro t rely sound n u answer
    cases answer
    refine ⟨sound, ⟨⟨nofun, fun _ => id⟩, fun j _ => Rely.refl j _⟩, create_safe ?_⟩
    have mem : (first :: rest).get n ∈ Search.subnetCandidates l.pool.bounds l.pool.firstCandidate
        l.pool.subnetLen (live.map (·.subnet)) Search.candidateLimit := by
      rw [found]
      exact List.get_mem (first :: rest) n
    exact Pool.isCompatible_of_mem mem

theorem settle_safe {retry : Retry} {previous : Option Subnet} {live : List SubnetClaim}
    (mine : ∀ c ∈ live, c.owner = l.owner i → ∃ e ∈ s.seen i,
      e.key = l.layout.subnetKey c.pool c.subnet ∧ ∃ ends, e.lease = some (l.owner i, ends))
    (sound : Sound l punctual s) :
    Safe ((leasing l punctual).terms i) (Safe.Outcome (Won l i) fun _ => True)
      ((l.allocator (l.owner i) retry).settle l.pool (l.owner i) previous live) s := by
  unfold LeaseAllocator.settle
  split
  · rename_i c found
    have owner : c.owner = l.owner i := by simpa using List.find?_some found
    have relies := mine c (List.mem_of_find?_eq_some found) owner
    rw [Operation.bind_eq]
    have written : Safe ((leasing l punctual).terms i)
        (Safe.Outcome (Had l (l.owner i)) fun _ => True) ((l.allocator c.owner retry).write c) s :=
      write_safe owner relies
    rw [owner] at written
    refine Safe.bind written sound fun x t _ had => ?_
    cases x with
    | error => exact fun _ _ _ => trivial
    | ok d =>
      intro u rely _ c mem
      cases mem
      exact Had.stays rely.grows had
  · exact createAny_safe
  · rename_i subnet _ found
    have compatible : l.pool.isCompatible subnet = true := by
      have both := (Option.filter_eq_some_iff.1 found).2
      exact (Bool.and_eq_true_iff.1 both).1
    rw [Operation.bind_eq]
    refine Safe.bind (create_safe compatible) sound fun x t _ won => ?_
    cases x with
    | error => exact fun _ _ _ => trivial
    | ok d =>
      cases d with
      | none => exact createAny_safe
      | some c => exact fun u rely _ c mem => (won c mem).stays rely.grows

theorem tryAcquire_safe {retry : Retry} {previous : Option Subnet} :
    Safe ((leasing l punctual).terms i) (Safe.Outcome (Won l i) fun _ => True)
      ((l.allocator (l.owner i) retry).tryAcquire l.pool (l.owner i) previous) s := by
  rw [LeaseAllocator.tryAcquire_eq]
  refine now_safe fun t _ sound => request_safe (fun _ _ _ => trivial) fun u found rely before answer after => ?_
  have here : ∀ e ∈ found.entries, e ∈ u.store.entries ∧
      startsWith e.key (l.layout.claimStart .subnet l.pool.name) = true := by
    intro e mem
    rw [Store.range_found before.ascending answer] at mem
    exact List.mem_filter.1 mem
  have distinct : found.entries.Pairwise (·.key ≠ ·.key) := by
    rw [Store.range_found before.ascending answer]
    exact (before.ascending.filter _).imp fun lt => Std.ne_of_lt lt
  have seen : (u.served l i (.range (l.layout.claimStart .subnet l.pool.name)) (.ok found)
      (u.store.serve (.range (l.layout.claimStart .subnet l.pool.name))).2).seen i = found.entries := by
    simp [served, StoreRequest.read]
  refine Safe.bind (live_safe distinct (fun e mem => seen.symm ▸ mem) rely.now after) after
    fun x v sound reached => ?_
  cases x with
  | error => exact fun _ _ _ => trivial
  | ok live =>
    refine settle_safe (fun c mem owner => ?_) sound
    obtain ⟨e, listed, known, read⟩ := Live.read reached c mem
    obtain ⟨stands, below⟩ := here e listed
    refine ⟨e, known, (before.canonical e stands below c read).symm, c.expiration, ?_⟩
    rw [← owner]
    exact (SubnetClaim.ofEntry_eq_ok.1 read).2

theorem acquire_safe {retry : Retry} {previous : Option Subnet} (sound : Sound l punctual s) :
    Safe ((leasing l punctual).terms i) (Safe.Outcome (fun c t => Had l (l.owner i) c t) fun _ => True)
      ((l.allocator (l.owner i) retry).acquire l.pool (l.owner i) previous) s := by
  have attempts : Safe ((leasing l punctual).terms i)
      (Safe.Outcome (fun c t => Had l (l.owner i) c t) fun _ => True)
      (retry.attempt l.pool.name
        ((l.allocator (l.owner i) retry).tryAcquire l.pool (l.owner i) previous) retry.attempts) s := by
    refine Safe.attempt (fun _ => True) (Had l (l.owner i)) (fun _ _ => trivial)
      (fun (rely : Rely i _ _) _ had => had.stays rely.grows) (fun sound _ answer => ?_) (fun t _ _ => ?_) sound trivial
    · cases answer
      exact ⟨sound, ⟨⟨nofun, fun _ => id⟩, fun j _ => Rely.refl j _⟩, trivial⟩
    · refine tryAcquire_safe.weaken fun x u _ won => ?_
      cases x with
      | error => trivial
      | ok d => exact ⟨won, fun _ => trivial⟩
  unfold LeaseAllocator.acquire
  split
  · exact fun _ _ _ => trivial
  · exact attempts

theorem get_seen {key : String} {found : Option KeyValue} {t : Leasing ι}
    (sound : Sound l punctual t) (answer : (t.store.serve (.get key)).1 = some (.ok found))
    (held : heldBy (l.owner i) found = true) :
    ∃ e ∈ (t.served l i (.get key) (.ok found) (t.store.serve (.get key)).2).seen i,
      e.key = key ∧ ∃ ends, e.lease = some (l.owner i, ends) := by
  cases found with
  | none => cases held
  | some e =>
    have here := (Store.find?_eq_some_iff sound.ascending).1 (Store.get_found answer).symm
    refine ⟨e, ?_, here.2, heldBy_some.1 held⟩
    simp [served, StoreRequest.read]

theorem renew_safe {retry : Retry} {c : SubnetClaim} (mine : c.owner = l.owner i) :
    Safe ((leasing l punctual).terms i) (Safe.Outcome (fun d t => Had l (l.owner i) d t) fun _ => True)
      ((l.allocator c.owner retry).renew c) s := by
  rw [LeaseAllocator.renew_eq]
  refine request_safe (fun _ _ _ => trivial) fun t found _ sound answer _ => ?_
  split
  · rename_i held
    exact write_safe mine (get_seen sound answer (mine ▸ held))
  · exact fun _ _ _ => trivial

theorem release_safe {retry : Retry} {c : SubnetClaim} (mine : c.owner = l.owner i) :
    Safe ((leasing l punctual).terms i) (Safe.Outcome (fun _ _ => True) fun _ => True)
      ((l.allocator c.owner retry).release c) s := by
  rw [LeaseAllocator.release_eq]
  refine request_safe (fun _ _ _ => trivial) fun t found _ sound answer _ => ?_
  split
  · rename_i held
    obtain ⟨e, mem, key, lease⟩ := get_seen sound answer (mine ▸ held)
    refine request_safe (fun u rely _ => ⟨e, rely.seen.symm ▸ mem, key, lease⟩) fun _ _ _ _ _ _ => ?_
    exact fun _ _ _ => trivial
  · exact fun _ _ _ => trivial

theorem returned_safe {o : Operation SubnetClaim}
    (safe : Safe ((leasing l punctual).terms i)
      (Safe.Outcome (fun c t => Had l (l.owner i) c t) fun _ => True) o s)
    (sound : Sound l punctual s) :
    Safe ((leasing l punctual).terms i) (fun x t => True ∧ ∀ c ∈ x, Had l (l.owner i) c t)
      (o.outcome.bind fun x => .pure x.toOption) s := by
  refine Safe.bind safe sound fun x t _ had u rely _ => ⟨trivial, fun c mem => ?_⟩
  cases x with
  | error => cases mem
  | ok d =>
    cases mem
    exact Had.stays rely.grows had

theorem leasing_kept (l : LeasePool ι) (punctual : Prop) : (leasing l punctual).Kept := by
  intro i k s mine sound _
  cases k with
  | acquire retry owner previous =>
    have mine : owner = l.owner i := mine
    subst mine
    exact returned_safe (acquire_safe sound) sound
  | renew c =>
    have mine : c.owner = l.owner i := mine
    have safe : Safe ((leasing l punctual).terms i) (fun x t => True ∧ ∀ d ∈ x, Had l (l.owner i) d t)
        (((l.allocator c.owner ⟨0, 0⟩).renew c).outcome.bind fun x => .pure x.toOption) s :=
      returned_safe (renew_safe mine) sound
    rwa [← mine] at safe
  | release c =>
    have mine : c.owner = l.owner i := mine
    refine Safe.bind (release_safe mine) sound fun x t _ _ u _ _ => ⟨trivial, nofun⟩

end Leasing

end NetPool
