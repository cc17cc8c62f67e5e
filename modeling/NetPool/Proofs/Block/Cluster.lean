import NetPool.Proofs.Cache
import NetPool.Proofs.Scene
import NetPool.Proofs.Store.Change
import NetPool.Store.Serve

/-! Nodes that share one pool of blocks: a store, files on each node, and what the callers have been
told. No request to the store fails, and no write of a file. -/

namespace NetPool

/-- One pool of blocks, and where each node keeps its ranges. -/
structure BlockPool (ν : Type) where
  layout : KeyLayout
  name : String
  cache : ν → RangeCache

namespace BlockPool

def lock {ν : Type} (p : BlockPool ν) : String := p.layout.mutex .range p.name

def start {ν : Type} (p : BlockPool ν) : String := p.layout.claimStart .range p.name

end BlockPool

/-- Ranges of which no two share an address. -/
def Apart (ranges : List AddressRange) : Prop := ranges.Pairwise fun r s => r.overlaps s = false

/-- A node has any number of callers. -/
structure Cluster (ν : Type) where
  store : Store
  files : ν → FileTree
  /-- The locks that a caller has been granted. -/
  held : ν × Nat → List Grant
  /-- Whether a caller has loaded its file, and not yet once more. -/
  loaded : ν × Nat → Bool
  /-- The range that the file just refused to a caller that had loaded it. -/
  doomed : ν × Nat → Option AddressRange
  refused : List AddressRange

namespace Cluster

variable {ν : Type}

/-- The locks held once a request has been answered. -/
def holding (held : List Grant) : (r : StoreRequest) → Except StoreError r.Result → List Grant
  | .lock _, .ok grant => grant :: held
  | .unlock grant, _ => held.erase grant
  | _, _ => held

def isUnlock : StoreRequest → Bool
  | .unlock _ => true
  | _ => false

theorem mem_holding {held : List Grant} {r : StoreRequest} {x : Except StoreError r.Result} {g : Grant}
    (keeps : isUnlock r = false) (mem : g ∈ held) : g ∈ holding held r x := by
  cases r with
  | unlock => cases keeps
  | lock name =>
    cases x with
    | error e => exact mem
    | ok grant => exact List.mem_cons_of_mem _ mem
  | range | get | create | put | delete | compareAndDelete | watch => exact mem

def Lone (held : List Grant) : StoreRequest → Prop
  | .unlock g => held = [g]
  | _ => True

def asksStore : Request → Bool
  | .store _ => true
  | _ => false

def asksLocks : Request → Bool
  | .store r => r.locks
  | _ => false

def kept (p : BlockPool ν) (s : Cluster ν) (n : ν) : List AddressRange :=
  (p.cache n).kept (s.files n) p.name

def Holds (p : BlockPool ν) (s : Cluster ν) (i : ν × Nat) : Prop := ∃ g ∈ s.held i, g.name = p.lock

/-- What holds as long as the locks are respected: no two callers hold the lock of the pool. -/
structure Steady (p : BlockPool ν) (s : Cluster ν) : Prop where
  ascending : Store.Ascending s.store.entries
  available : s.store.available = true
  working : s.store.failingCreations = 0
  rooted : ∀ n, (s.files n).Rooted
  locked : ∀ i, ∀ g ∈ s.held i, g.name = p.lock → g ∈ s.store.locks
  alone : ∀ i j, s.Holds p i → s.Holds p j → i = j

theorem Steady.not_holds {p : BlockPool ν} {s : Cluster ν} (steady : Steady p s)
    (free : s.store.isLocked p.lock = false) (j : ν × Nat) : ¬ s.Holds p j := by
  rintro ⟨g, held, name⟩
  have taken : s.store.isLocked p.lock = true := by
    rw [Store.isLocked, List.any_eq_true]
    exact ⟨g, steady.locked j g held name, decide_eq_true name⟩
  rw [free] at taken
  cases taken

/-- The caller holds this lock of the pool, and nothing else. -/
def Locked (p : BlockPool ν) (i : ν × Nat) (g : Grant) (s : Cluster ν) : Prop :=
  s.held i = [g] ∧ g.name = p.lock

theorem Locked.holds {p : BlockPool ν} {s : Cluster ν} {i : ν × Nat} {g : Grant}
    (locked : s.Locked p i g) : s.Holds p i :=
  ⟨g, locked.1 ▸ List.mem_singleton.2 rfl, locked.2⟩

theorem Locked.stays {p : BlockPool ν} {s t : Cluster ν} {i : ν × Nat} {g : Grant}
    (same : t.held i = s.held i) (locked : s.Locked p i g) : t.Locked p i g :=
  ⟨same.trans locked.1, locked.2⟩

variable [DecidableEq ν]

def served (s : Cluster ν) (i : ν × Nat) (r : StoreRequest) (x : Except StoreError r.Result)
    (store : Store) : Cluster ν :=
  { s with
    store
    held := fun j => if j = i then holding (s.held i) r x else s.held j
    loaded := fun j => if j = i ∧ isUnlock r then false else s.loaded j
    doomed := fun j => if j = i then none else s.doomed j }

/-- What a caller is refused that has loaded its file. -/
def refusal (loaded : Bool) : (r : CacheRequest) → Except Failure r.Result → Option AddressRange
  | .append _ range, .error _ => if loaded then some range else none
  | _, _ => none

def isLoad : CacheRequest → Bool
  | .load _ => true
  | _ => false

/-- The cluster once an operation on the files of a node has been carried out. -/
def filed (s : Cluster ν) (i : ν × Nat) (r : CacheRequest) (x : Except Failure r.Result)
    (files : FileTree) : Cluster ν :=
  { s with
    files := fun n => if n = i.1 then files else s.files n
    loaded := fun j => if j = i ∧ isLoad r then !s.loaded j else s.loaded j
    doomed := fun j => if j = i then refusal (s.loaded i) r x else s.doomed j
    refused := (refusal (s.loaded i) r x).toList ++ s.refused }

def Writes : CacheRequest → Prop
  | .append _ _ => True
  | .delete _ _ => True
  | _ => False

/-- Nobody else on the node has loaded the file and not yet once more. -/
def Undisturbed (s : Cluster ν) (i : ν × Nat) : CacheRequest → Prop
  | .append _ _ => ∀ j, j ≠ i → j.1 = i.1 → s.loaded j = false
  | _ => True

/-- An answer to a request. If the node is to be `calm`, nothing is added to a file that someone else
has loaded and not yet once more. -/
def Answers (p : BlockPool ν) (calm : Prop) (i : ν × Nat) (s : Cluster ν) :
    (r : Request) → r.Answer → Cluster ν → Prop
  | .store r, x, t => (s.store.serve r).1 = some x ∧ t = s.served i r x (s.store.serve r).2
  | .cache r, x, t => ((p.cache i.1).serve (s.files i.1) r).1 = x ∧
      (Writes r → ¬ RangeCache.Faulty x) ∧ (calm → s.Undisturbed i r) ∧
      t = s.filed i r x ((p.cache i.1).serve (s.files i.1) r).2
  | _, _, t => t = s

/-- The answer to a request, unless it has to wait or a write fails. -/
def reply (p : BlockPool ν) (i : ν × Nat) (s : Cluster ν) :
    (r : Request) → Option (r.Answer × Cluster ν)
  | .store r => (s.store.serve r).1.map fun x => (x, s.served i r x (s.store.serve r).2)
  | .cache r =>
    let x := (p.cache i.1).serve (s.files i.1) r
    if RangeCache.isFaulty x.1 then none else some (x.1, s.filed i r x.1 x.2)
  | .sleep _ => some ((), s)
  | _ => none

variable {p : BlockPool ν} {calm : Prop} {i j : ν × Nat} {s t : Cluster ν}

theorem reply_answers {r : Request} {x : r.Answer} (answered : reply p i s r = some (x, t))
    (calmly : calm → ∀ q, r = .cache q → s.Undisturbed i q) : Answers p calm i s r x t := by
  cases r with
  | store r =>
    obtain ⟨y, served, same⟩ := Option.map_eq_some_iff.1 answered
    cases same
    exact ⟨served, rfl⟩
  | cache r =>
    simp only [reply] at answered
    split at answered
    · cases answered
    · rename_i fine
      cases answered
      exact ⟨rfl, fun _ faulty => fine (RangeCache.isFaulty_iff.2 faulty),
        fun quiet => calmly quiet r rfl, rfl⟩
  | sleep ms =>
    cases answered
    exact rfl
  | chore | now | instant | pick | isLive | apply => cases answered

/-- What a request does not touch: what others have been told, and the store or the files. -/
theorem Answers.others {r : Request} {x : r.Answer} (answer : Answers p calm i s r x t)
    (other : j ≠ i) :
    t.held j = s.held j ∧ t.loaded j = s.loaded j ∧ t.doomed j = s.doomed j := by
  cases r with
  | store r =>
    obtain ⟨_, rfl⟩ := answer
    simp [served, other]
  | cache r =>
    obtain ⟨_, _, _, rfl⟩ := answer
    simp [filed, other]
  | chore | now | instant | sleep | pick | isLive | apply =>
    cases answer
    exact ⟨rfl, rfl, rfl⟩

theorem held_served (s : Cluster ν) (i j : ν × Nat) (r : StoreRequest) (x : Except StoreError r.Result)
    (store : Store) :
    (s.served i r x store).held j = if j = i then holding (s.held i) r x else s.held j := rfl

/-- A request that neither takes a lock nor lets one go. -/
theorem Steady.plain (steady : Steady p s) {r : StoreRequest} (x : Except StoreError r.Result)
    (unlocked : (s.store.serve r).2.locks = s.store.locks)
    (same : holding (s.held i) r x = s.held i) : Steady p (s.served i r x (s.store.serve r).2) := by
  have frame := s.store.serve_frame r
  have held (j) : (s.served i r x (s.store.serve r).2).held j = s.held j := by
    rw [held_served]
    split
    · rename_i here
      rw [same, here]
    · rfl
  refine ⟨Store.serve_ascending steady.ascending r, frame.available.trans steady.available,
    frame.working steady.working, steady.rooted, fun j g mem name => ?_, fun j k hj hk => ?_⟩
  · change g ∈ (s.store.serve r).2.locks
    rw [unlocked]
    exact steady.locked j g (held j ▸ mem) name
  · unfold Holds at hj hk
    rw [held] at hj hk
    exact steady.alone j k hj hk

theorem Steady.grants (steady : Steady p s) {name : String} {x : Except StoreError Grant}
    (answer : (s.store.serve (.lock name)).1 = some x) :
    Steady p (s.served i (.lock name) x (s.store.serve (.lock name)).2) := by
  have frame := s.store.serve_frame (.lock name)
  obtain ⟨free, rfl, after⟩ := Store.serve_lock_of_available steady.available answer
  -- What is held now was held before, or is the lock just granted.
  have taken {j g} (mem : g ∈ (s.served i (.lock name) (.ok ⟨name, s.store.lastToken + 1⟩)
      (s.store.serve (.lock name)).2).held j) : j = i ∧ g = ⟨name, s.store.lastToken + 1⟩ ∨
        g ∈ s.held j := by
    rw [held_served] at mem
    split at mem
    · rename_i mine
      rcases List.mem_cons.1 mem with rfl | old
      · exact .inl ⟨mine, rfl⟩
      · exact .inr (mine ▸ old)
    · exact .inr mem
  refine ⟨Store.serve_ascending steady.ascending _, frame.available.trans steady.available,
    frame.working steady.working, steady.rooted, fun j g mem lock => ?_, ?_⟩
  · change g ∈ (s.store.serve (.lock name)).2.locks
    rw [after]
    rcases taken mem with ⟨_, rfl⟩ | old
    · exact List.mem_cons_self
    · exact List.mem_cons_of_mem _ (steady.locked j g old lock)
  · rintro j k ⟨g, gm, gl⟩ ⟨h, hm, hl⟩
    rcases taken gm with ⟨rfl, rfl⟩ | wasJ
    · rcases taken hm with ⟨rfl, _⟩ | wasK
      · rfl
      · exact absurd ⟨h, wasK, hl⟩ (steady.not_holds (gl ▸ free) k)
    · rcases taken hm with ⟨rfl, rfl⟩ | wasK
      · exact absurd ⟨g, wasJ, gl⟩ (steady.not_holds (hl ▸ free) j)
      · exact steady.alone j k ⟨g, wasJ, gl⟩ ⟨h, wasK, hl⟩

theorem Steady.frees (steady : Steady p s) {grant : Grant} (mine : s.held i = [grant])
    (x : Except StoreError Unit) :
    Steady p (s.served i (.unlock grant) x (s.store.serve (.unlock grant)).2) := by
  have frame := s.store.serve_frame (.unlock grant)
  have stays {j g} (mem : g ∈ (s.served i (.unlock grant) x (s.store.serve (.unlock grant)).2).held j) :
      j ≠ i ∧ g ∈ s.held j := by
    rw [held_served] at mem
    split at mem
    · simp [holding, mine] at mem
    · rename_i other
      exact ⟨other, mem⟩
  refine ⟨Store.serve_ascending steady.ascending _, frame.available.trans steady.available,
    frame.working steady.working, steady.rooted, fun j g mem lock => ?_, ?_⟩
  · obtain ⟨other, old⟩ := stays mem
    have there := steady.locked j g old lock
    have ne : g ≠ grant := by
      intro same
      have holds : s.Holds p i := ⟨g, by rw [mine, same]; exact List.mem_cons_self, lock⟩
      exact other (steady.alone j i ⟨g, old, lock⟩ holds)
    change g ∈ (s.store.unlock grant).2.locks
    rcases s.store.unlock_cases grant with h | h <;> rw [h]
    · exact there
    · exact List.mem_filter.2 ⟨there, decide_eq_true ne⟩
  · rintro j k ⟨g, gm, gl⟩ ⟨h, hm, hl⟩
    exact steady.alone j k ⟨g, (stays gm).2, gl⟩ ⟨h, (stays hm).2, hl⟩

/-- Requests keep the state steady as long as nobody lets go a lock that is not his. -/
theorem Steady.served (steady : Steady p s) {r : StoreRequest} {x : Except StoreError r.Result}
    (answer : Answers p calm i s (.store r) x t) (lone : Lone (s.held i) r) :
    Steady p t := by
  obtain ⟨served, rfl⟩ := answer
  cases r with
  | range | get | create | put | delete | compareAndDelete | watch =>
    exact steady.plain x ((s.store.serve_frame _).locks rfl) rfl
  | lock name => exact steady.grants served
  | unlock grant => exact steady.frees lone x

theorem Steady.filed (steady : Steady p s) {r : CacheRequest} {x : Except Failure r.Result}
    (answer : Answers p calm i s (.cache r) x t) : Steady p t := by
  obtain ⟨done, fine, _, rfl⟩ := answer
  have rooted : ((p.cache i.1).serve (s.files i.1) r).2.Rooted := by
    have before := steady.rooted i.1
    cases r with
    | load | pools => exact before
    | append pool range =>
      exact (RangeCache.append_cases before (Prod.ext done rfl) (fine trivial)).1
    | delete pool range =>
      exact (RangeCache.delete_eq before (Prod.ext done rfl) (fine trivial)).1
  refine ⟨steady.ascending, steady.available, steady.working, fun n => ?_, steady.locked,
    steady.alone⟩
  change (if n = i.1 then _ else s.files n).Rooted
  split
  · exact rooted
  · exact steady.rooted n

theorem Answers.aside {r : Request} {x : r.Answer} (answer : Answers p calm i s r x t)
    (aside : asksStore r = false) : t.store = s.store ∧ t.held = s.held := by
  cases r with
  | store q => cases aside
  | cache r =>
    obtain ⟨_, _, _, rfl⟩ := answer
    exact ⟨rfl, rfl⟩
  | chore | now | instant | sleep | pick | isLive | apply =>
    cases answer
    exact ⟨rfl, rfl⟩

theorem Steady.enters (steady : Steady p s) (idle : s.held i = []) {x : Except StoreError Grant}
    (answer : Answers p calm i s (.store (.lock p.lock)) x t) : ∃ g, x = .ok g ∧ t.Locked p i g := by
  obtain ⟨served, rfl⟩ := answer
  obtain ⟨_, rfl, _⟩ := Store.serve_lock_of_available steady.available served
  refine ⟨_, rfl, ?_, rfl⟩
  simp [Cluster.served, holding, idle]

theorem Locked.leaves {g : Grant} (locked : s.Locked p i g) {x : Except StoreError Unit}
    (answer : Answers p calm i s (.store (.unlock g)) x t) : t.held i = [] := by
  obtain ⟨_, rfl⟩ := answer
  simp [Cluster.served, holding, locked.1]

theorem Answers.held_eq {r : Request} {x : r.Answer} (answer : Answers p calm i s r x t)
    (free : asksLocks r = false) : t.held = s.held := by
  cases r with
  | store r =>
    obtain ⟨_, rfl⟩ := answer
    funext j
    change (if j = i then holding (s.held i) r x else s.held j) = s.held j
    split
    · rename_i here
      subst here
      cases r with
      | range | get | create | put | delete | compareAndDelete | watch => rfl
      | lock | unlock => cases free
    · rfl
  | cache | chore | now | instant | sleep | pick | isLive | apply => exact (answer.aside rfl).2

theorem Answers.range_eq (steady : Steady p s) {start : String} {x : Except StoreError Snapshot}
    (answer : Answers p calm i s (.store (.range start)) x t) : t.store = s.store ∧
      x = .ok ⟨s.store.entries.filter (startsWith ·.key start), s.store.revision⟩ := by
  obtain ⟨served, rfl⟩ := answer
  have read : (s.store.serve (.range start)).1 =
      some (.ok ⟨s.store.entries.filter (startsWith ·.key start), s.store.revision⟩) :=
    congrArg some (Store.range_of_available steady.ascending steady.available start)
  exact ⟨rfl, (Option.some.inj (read.symm.trans served)).symm⟩

theorem Answers.create_cases (steady : Steady p s) {key : String} {value : Bytes}
    {x : Except StoreError Creation} (answer : Answers p calm i s (.store (.create key value)) x t) :
    (x = .ok .alreadyExists ∧ t.store = s.store) ∨
      ((∃ revision, x = .ok (.created revision)) ∧ t.store = s.store.write key value) := by
  obtain ⟨served, rfl⟩ := answer
  obtain ⟨_, taken⟩ | ⟨_, made⟩ :=
    Store.create_of_available steady.available steady.working key value
  · have exist := served.symm.trans (congrArg (some ∘ Prod.fst) taken)
    exact .inl ⟨Option.some.inj exist, congrArg Prod.snd taken⟩
  · have created := served.symm.trans (congrArg (some ∘ Prod.fst) made)
    exact .inr ⟨⟨_, Option.some.inj created⟩, congrArg Prod.snd made⟩

theorem Answers.after_store {r : StoreRequest} {x : Except StoreError r.Result}
    (answer : Answers p calm i s (.store r) x t) :
    t.doomed i = none ∧ t.loaded i = if isUnlock r then false else s.loaded i := by
  obtain ⟨_, rfl⟩ := answer
  simp [Cluster.served]

theorem Answers.after_file {r : CacheRequest} {x : Except Failure r.Result}
    (answer : Answers p calm i s (.cache r) x t) :
    t.doomed i = refusal (s.loaded i) r x ∧ t.refused = (refusal (s.loaded i) r x).toList ++ s.refused ∧
      t.loaded i = if isLoad r then !s.loaded i else s.loaded i := by
  obtain ⟨_, _, _, rfl⟩ := answer
  simp [Cluster.filed]

/-! What operations do to the ranges on file. -/

theorem Answers.kept_store {r : StoreRequest} {x : Except StoreError r.Result}
    (answer : Answers p calm i s (.store r) x t) (n : ν) : t.kept p n = s.kept p n := by
  obtain ⟨_, rfl⟩ := answer
  rfl

theorem Answers.kept_other {r : Request} {x : r.Answer} (answer : Answers p calm i s r x t) {n : ν}
    (other : n ≠ i.1) : t.kept p n = s.kept p n := by
  cases r with
  | store r => exact answer.kept_store n
  | cache r =>
    obtain ⟨_, _, _, rfl⟩ := answer
    simp only [kept, filed, other, if_false]
  | chore | now | instant | sleep | pick | isLive | apply =>
    cases answer
    rfl

theorem Answers.kept_load {pool : String} {x : Except Failure (List AddressRange)}
    (answer : Answers p calm i s (.cache (.load pool)) x t) (n : ν) : t.kept p n = s.kept p n := by
  by_cases here : n = i.1
  · obtain ⟨_, _, _, rfl⟩ := answer
    simp only [kept, filed, here, if_true]
    rfl
  · exact answer.kept_other here

theorem Answers.load_eq {ranges : List AddressRange}
    (answer : Answers p calm i s (.cache (.load p.name)) (.ok ranges) t) :
    ranges = [] ∨ ranges = s.kept p i.1 := by
  obtain ⟨loaded, _, _, _⟩ := answer
  exact RangeCache.load_kept loaded

theorem Answers.kept_append (steady : Steady p s) {r : AddressRange} {x : Except Failure Unit}
    (answer : Answers p calm i s (.cache (.append p.name r)) x t) :
    (x = .ok () ∧ Cache.overlapping? r (s.kept p i.1) = none ∧
        t.kept p i.1 = s.kept p i.1 ++ [r]) ∨
      ((∃ e, x = .error e) ∧ (∃ q, Cache.overlapping? r (s.kept p i.1) = some q) ∧
        t.kept p i.1 = s.kept p i.1) := by
  obtain ⟨done, fine, _, rfl⟩ := answer
  have after : (s.filed i (.append p.name r) x
      ((p.cache i.1).serve (s.files i.1) (.append p.name r)).2).kept p i.1 =
        (p.cache i.1).kept ((p.cache i.1).append (s.files i.1) p.name r).2 p.name := by
    simp only [kept, filed, if_true]
    rfl
  rw [after]
  obtain ⟨_, _, ⟨ok, free, kept⟩ | ⟨⟨path, cached, error, found⟩, kept⟩⟩ :=
    RangeCache.append_cases (steady.rooted i.1) (Prod.ext done rfl) (fine trivial)
  · exact .inl ⟨ok, free, kept⟩
  · exact .inr ⟨⟨_, error⟩, ⟨cached, found⟩, kept⟩

theorem Answers.kept_delete (steady : Steady p s) {r : AddressRange}
    {x : Except Failure (Option AddressRange)}
    (answer : Answers p calm i s (.cache (.delete p.name r)) x t) :
    t.kept p i.1 = Cache.without r (s.kept p i.1) := by
  obtain ⟨done, fine, _, rfl⟩ := answer
  have after : (s.filed i (.delete p.name r) x
      ((p.cache i.1).serve (s.files i.1) (.delete p.name r)).2).kept p i.1 =
        (p.cache i.1).kept ((p.cache i.1).delete (s.files i.1) p.name r).2 p.name := by
    simp only [kept, filed, if_true]
    rfl
  rw [after]
  exact (RangeCache.delete_eq (steady.rooted i.1) (Prod.ext done rfl) (fine trivial)).2.2.2

/-- What a node loads is what it has on file. -/
def Readable (p : BlockPool ν) (s : Cluster ν) (n : ν) : Prop :=
  (p.cache n).Readable (s.files n) p.name

def Concerns (name : String) : CacheRequest → Prop
  | .append pool _ => pool = name
  | .delete pool _ => pool = name
  | _ => True

theorem Answers.readable (steady : Steady p s) {r : CacheRequest} {x : Except Failure r.Result}
    (concerns : Concerns p.name r) (answer : Answers p calm i s (.cache r) x t)
    (readable : ∀ n, s.Readable p n) (n : ν) : t.Readable p n := by
  obtain ⟨done, fine, _, rfl⟩ := answer
  change (p.cache n).Readable (if n = i.1 then _ else s.files n) p.name
  split
  · rename_i here
    subst here
    have rooted := steady.rooted i.1
    cases r with
    | load | pools => exact readable i.1
    | append pool range =>
      cases concerns
      exact (RangeCache.append_cases rooted (Prod.ext done rfl) (fine trivial)).2.1
    | delete pool range =>
      cases concerns
      exact (RangeCache.delete_eq rooted (Prod.ext done rfl) (fine trivial)).2.1
  · exact readable n

end Cluster

/-! Ranges apart, and what stays when one is taken away. -/

theorem Apart.tail {r : AddressRange} {ranges : List AddressRange} (apart : Apart (r :: ranges)) :
    Apart ranges := (List.pairwise_cons.1 apart).2

theorem Apart.fresh {r : AddressRange} {ranges : List AddressRange} (apart : Apart (r :: ranges)) :
    r ∉ ranges := by
  intro mem
  have clear := (List.pairwise_cons.1 apart).1 r mem
  rw [r.overlaps_self] at clear
  cases clear

theorem Apart.append {ranges : List AddressRange} {r : AddressRange} (apart : Apart ranges)
    (free : Cache.overlapping? r ranges = none) : Apart (ranges ++ [r]) := by
  refine List.pairwise_append.2 ⟨apart, List.pairwise_singleton _ _, fun q mem s one => ?_⟩
  cases List.mem_singleton.1 one
  exact Bool.eq_false_iff.2 (List.find?_eq_none.1 free q mem)

theorem Apart.without {ranges : List AddressRange} (apart : Apart ranges) (r : AddressRange) :
    Apart (Cache.without r ranges) := List.Pairwise.sublist List.eraseP_sublist apart

theorem Apart.eq {ranges : List AddressRange} (apart : Apart ranges) {q r : AddressRange}
    (hq : q ∈ ranges) (hr : r ∈ ranges) (shared : q.overlaps r = true) : q = r := by
  induction ranges with
  | nil => cases hq
  | cons a ranges ih =>
    have split := List.pairwise_cons.1 apart
    rcases List.mem_cons.1 hq with rfl | hq' <;> rcases List.mem_cons.1 hr with rfl | hr'
    · rfl
    · rw [split.1 r hr'] at shared
      cases shared
    · rw [AddressRange.overlaps_comm, split.1 q hq'] at shared
      cases shared
    · exact ih split.2 hq' hr'

theorem mem_without {ranges : List AddressRange} {q r : AddressRange} (mem : q ∈ ranges)
    (clear : q.overlaps r = false) : q ∈ Cache.without r ranges := by
  have out : ¬ q.overlaps r = true := Bool.eq_false_iff.1 clear
  exact (List.mem_eraseP_of_neg (p := (·.overlaps r)) out).2 mem

theorem Apart.mem_without {ranges : List AddressRange} (apart : Apart ranges) {q r : AddressRange}
    (here : r ∈ ranges) : q ∈ Cache.without r ranges ↔ q ∈ ranges ∧ q ≠ r := by
  obtain ⟨a, before, after, _, shared, whole, rest⟩ :=
    List.exists_of_eraseP (p := (·.overlaps r)) here r.overlaps_self
  have there : a ∈ ranges := by simp [whole]
  cases apart.eq there here shared
  rw [Cache.without, rest, whole]
  rw [whole] at apart
  obtain ⟨_, tail, across⟩ := List.pairwise_append.1 apart
  constructor
  · intro mem
    refine ⟨?_, ?_⟩
    · rcases List.mem_append.1 mem with left | right
      · exact List.mem_append_left _ left
      · exact List.mem_append_right _ (List.mem_cons_of_mem r right)
    · rintro rfl
      have self := q.overlaps_self
      rcases List.mem_append.1 mem with left | right
      · rw [across q left q List.mem_cons_self] at self
        cases self
      · rw [(List.pairwise_cons.1 tail).1 q right] at self
        cases self
  · rintro ⟨mem, ne⟩
    rcases List.mem_append.1 mem with left | right
    · exact List.mem_append_left _ left
    · exact List.mem_append_right _ ((List.mem_cons.1 right).resolve_left ne)

end NetPool
