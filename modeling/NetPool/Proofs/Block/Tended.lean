import NetPool.Proofs.Block.Calls
import NetPool.Proofs.Keys

/-! Allocations and passes among each other. A block that was handed out stays in the store unless a
pass is refused its range: the pass has loaded the file before the range is added to it, and gives up
what it then cannot add itself. -/

namespace NetPool.Cluster

variable {ν : Type}

def Entered (key : String) (value : Bytes) (s : Cluster ν) : Prop :=
  ∃ e ∈ s.store.entries, e.key = key ∧ e.value = value

/-- A pass has been refused the range of this key. -/
def GivenUp (p : BlockPool ν) (key : String) (s : Cluster ν) : Prop :=
  ∃ r ∈ s.refused, p.layout.rangeKeyFor p.name r = some key

/-- Nothing is lost but what is given up. -/
structure Leaves (p : BlockPool ν) (s t : Cluster ν) : Prop where
  refused : s.refused ⊆ t.refused
  entries : ∀ e ∈ s.store.entries, e ∈ t.store.entries ∨ t.GivenUp p e.key

/-- Whoever has loaded his file holds the lock. In a calm cluster files are apart, and no pass is
refused a range. -/
structure Tended (p : BlockPool ν) (calm : Prop) (s : Cluster ν) : Prop where
  steady : Steady p s
  holding : ∀ i, s.loaded i = true → s.Holds p i
  calmly : calm → s.refused = [] ∧ ∀ n, Apart (s.kept p n) ∧ s.Readable p n

/-- What a caller may count on. In a calm cluster nobody changes the file that he has loaded. -/
structure Counts (p : BlockPool ν) (calm : Prop) (i : ν × Nat) (s t : Cluster ν) : Prop where
  held : t.held i = s.held i
  loaded : t.loaded i = s.loaded i
  doomed : t.doomed i = s.doomed i
  leaves : Leaves p s t
  kept : calm → s.loaded i = true → t.kept p i.1 = s.kept p i.1

/-- What a request does. Whoever has been refused a range deletes its key next. -/
structure Does (p : BlockPool ν) (i : ν × Nat) (s : Cluster ν) (r : Request) (t : Cluster ν) :
    Prop where
  leaves : Leaves p s t
  gives : ∀ range, s.doomed i = some range →
    ∃ key, p.layout.rangeKeyFor p.name range = some key ∧ r = .store (.delete key)

structure Idle (i : ν × Nat) (s : Cluster ν) : Prop where
  held : s.held i = []
  loaded : s.loaded i = false
  doomed : s.doomed i = none

variable {p : BlockPool ν} {calm : Prop} {i j : ν × Nat} {s t u : Cluster ν}

theorem Leaves.refl (s : Cluster ν) : Leaves p s s := ⟨fun _ mem => mem, fun _ mem => .inl mem⟩

theorem GivenUp.later {key : String} (refused : s.refused ⊆ t.refused) (given : s.GivenUp p key) :
    t.GivenUp p key := by
  obtain ⟨r, mem, same⟩ := given
  exact ⟨r, refused mem, same⟩

theorem Leaves.trans (first : Leaves p s t) (next : Leaves p t u) : Leaves p s u := by
  refine ⟨fun r mem => next.refused (first.refused mem), fun e mem => ?_⟩
  rcases first.entries e mem with here | given
  · exact next.entries e here
  · exact .inr (given.later next.refused)

theorem Leaves.entered {key : String} {value : Bytes} (leaves : Leaves p s t)
    (entered : s.Entered key value ∨ s.GivenUp p key) : t.Entered key value ∨ t.GivenUp p key := by
  rcases entered with ⟨e, mem, rfl, same⟩ | given
  · rcases leaves.entries e mem with here | given
    · exact .inl ⟨e, here, rfl, same⟩
    · exact .inr given
  · exact .inr (given.later leaves.refused)

theorem Counts.refl (i : ν × Nat) (s : Cluster ν) : Counts p calm i s s :=
  ⟨rfl, rfl, rfl, .refl s, fun _ _ => rfl⟩

theorem Counts.trans (first : Counts p calm i s t) (next : Counts p calm i t u) :
    Counts p calm i s u where
  held := next.held.trans first.held
  loaded := next.loaded.trans first.loaded
  doomed := next.doomed.trans first.doomed
  leaves := first.leaves.trans next.leaves
  kept calmly loaded :=
    (next.kept calmly (first.loaded.trans loaded)).trans (first.kept calmly loaded)

theorem Idle.stays (counts : Counts p calm i s t) (idle : Idle i s) : Idle i t :=
  ⟨counts.held.trans idle.held, counts.loaded.trans idle.loaded, counts.doomed.trans idle.doomed⟩

theorem Does.leaving (leaves : Leaves p s t) (free : s.doomed i = none) {r : Request} :
    Does p i s r t := by
  refine ⟨leaves, fun range doomed => ?_⟩
  rw [free] at doomed
  cases doomed

/-- A request keeps what holds, does what it is to, and lets the others count on it. -/
structure Deed (p : BlockPool ν) (calm : Prop) (i : ν × Nat) (s : Cluster ν) (r : Request)
    (t : Cluster ν) : Prop where
  tended : Tended p calm t
  does : Does p i s r t
  others : ∀ j, j ≠ i → Counts p calm j s t

variable [DecidableEq ν]

omit [DecidableEq ν] in
/-- Whoever turns to his file while nobody else holds the lock disturbs nobody. -/
theorem Tended.undisturbed (tended : Tended p calm s)
    (alone : s.store.isLocked p.lock = false ∨ s.Holds p i) (r : CacheRequest) : s.Undisturbed i r := by
  have unread (j) (other : j ≠ i) : s.loaded j = false := by
    by_contra loaded
    have holds := tended.holding j (Bool.not_eq_false _ ▸ loaded)
    rcases alone with free | mine
    · exact tended.steady.not_holds free j holds
    · exact other (tended.steady.alone j i holds mine)
  cases r with
  | append => exact fun j other _ => unread j other
  | load | delete | pools => trivial

/-- A request to the store that lets go of nothing but what has been refused. -/
theorem Tended.served (tended : Tended p calm s) {r : StoreRequest} {x : Except StoreError r.Result}
    (answer : Answers p calm i s (.store r) x t) (lone : Lone (s.held i) r)
    (leaves : Leaves p s t) (does : Does p i s (.store r) t) : Deed p calm i s (.store r) t := by
  have steady := tended.steady.served answer lone
  have kept (n : ν) : t.kept p n = s.kept p n := answer.kept_store n
  have others (j) (other : j ≠ i) := answer.others other
  refine ⟨⟨steady, fun j loaded => ?_, fun calmly => ?_⟩, does, fun j other => ?_⟩
  · by_cases mine : j = i
    · subst mine
      obtain ⟨_, rfl⟩ := answer
      cases keeps : isUnlock r with
      | true => simp [Cluster.served, keeps] at loaded
      | false =>
        obtain ⟨g, mem, name⟩ := tended.holding j (by simpa [Cluster.served, keeps] using loaded)
        exact ⟨g, by simpa [Cluster.served] using mem_holding keeps mem, name⟩
    · obtain ⟨held, before, _⟩ := others j mine
      obtain ⟨g, mem, name⟩ := tended.holding j (before ▸ loaded)
      exact ⟨g, held ▸ mem, name⟩
  · obtain ⟨none, files⟩ := tended.calmly calmly
    obtain ⟨_, rfl⟩ := answer
    exact ⟨none, files⟩
  · obtain ⟨held, loaded, doomed⟩ := others j other
    exact ⟨held, loaded, doomed, leaves, fun _ _ => kept j.1⟩

theorem Tended.asked (tended : Tended p calm s) (free : s.doomed i = none) {r : StoreRequest}
    {x : Except StoreError r.Result} (answer : Answers p calm i s (.store r) x t)
    (removes : r.removes = false) (lone : Lone (s.held i) r) : Deed p calm i s (.store r) t := by
  have leaves : Leaves p s t := by
    obtain ⟨_, rfl⟩ := answer
    exact ⟨fun _ mem => mem, fun e mem =>
      .inl (Store.mem_serve_of_mem tended.steady.ascending removes mem)⟩
  exact tended.served answer lone leaves (.leaving leaves free)

theorem Tended.gives (tended : Tended p calm s) {range : AddressRange}
    (doomed : s.doomed i = some range) (refused : range ∈ s.refused) {key : String}
    (found : p.layout.rangeKeyFor p.name range = some key) {x : Except StoreError Bool}
    (answer : Answers p calm i s (.store (.delete key)) x t) :
    Deed p calm i s (.store (.delete key)) t := by
  have leaves : Leaves p s t := by
    obtain ⟨_, rfl⟩ := answer
    refine ⟨fun _ mem => mem, fun e mem => ?_⟩
    rcases s.store.delete_cases key with same | ⟨gone, here, erased⟩
    · exact .inl (show e ∈ (s.store.delete key).2.entries from same.symm ▸ mem)
    · by_cases hit : e.key = key
      · exact .inr ⟨range, refused, hit ▸ found⟩
      · refine .inl (show e ∈ (s.store.delete key).2.entries from ?_)
        rw [erased]
        exact Store.mem_erase.2 ⟨mem, Store.find?_key here ▸ hit⟩
  refine tended.served answer trivial leaves ⟨leaves, fun other also => ⟨key, ?_, rfl⟩⟩
  rw [doomed] at also
  cases also
  exact found

/-- A request to the files. Only who holds the lock loads his file, and in a calm cluster nothing is
refused and no file changes that somebody else has loaded. -/
theorem Tended.filed (tended : Tended p calm s) (free : s.doomed i = none) {r : CacheRequest}
    {x : Except Failure r.Result} (answer : Answers p calm i s (.cache r) x t)
    (concerns : Concerns p.name r) (loads : isLoad r = true → s.Holds p i)
    (calmly : calm → refusal (s.loaded i) r x = none ∧ Apart (t.kept p i.1))
    (alone : s.Holds p i ∨ ∀ j, j ≠ i → calm → s.loaded j = true → t.kept p j.1 = s.kept p j.1) :
    Deed p calm i s (.cache r) t := by
  have steady := tended.steady.filed answer
  have leaves : Leaves p s t := by
    obtain ⟨_, _, _, rfl⟩ := answer
    exact ⟨fun _ mem => List.mem_append_right _ mem, fun _ mem => .inl mem⟩
  have held := answer.held_eq rfl
  refine ⟨⟨steady, fun j loaded => ?_, fun quiet => ?_⟩, .leaving leaves free, fun j other => ?_⟩
  · unfold Holds
    rw [held]
    by_cases mine : j = i
    · subst mine
      obtain ⟨_, _, _, rfl⟩ := answer
      cases load : isLoad r with
      | true => exact loads load
      | false => exact tended.holding j (by simpa [Cluster.filed, load] using loaded)
    · exact tended.holding j ((answer.others mine).2.1 ▸ loaded)
  · obtain ⟨none, files⟩ := tended.calmly quiet
    obtain ⟨accepted, apart⟩ := calmly quiet
    refine ⟨?_, fun n => ⟨?_, answer.readable tended.steady concerns (fun n => (files n).2) n⟩⟩
    · obtain ⟨_, _, _, rfl⟩ := answer
      simp [Cluster.filed, accepted, none]
    · by_cases here : n = i.1
      · exact here ▸ apart
      · rw [answer.kept_other here]
        exact (files n).1
  · obtain ⟨same, loaded, doomed⟩ := answer.others other
    refine ⟨same, loaded, doomed, leaves, fun quiet before => ?_⟩
    rcases alone with holds | alone
    · exact absurd (tended.steady.alone j i (tended.holding j before) holds) other
    · exact alone j other quiet before

end NetPool.Cluster
