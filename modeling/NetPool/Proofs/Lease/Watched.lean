import NetPool.Allocation.Monitor
import NetPool.Proofs.Lease.Calls
import NetPool.Proofs.Store.Following

/-! A key that is watched. What the store tells of it, in a snapshot or in events, is held against all
that the store has been. -/

namespace NetPool

namespace Lived

/-- Each revision so far has been seen. -/
def Whole (l : Lived) : Prop := ∀ n ≤ l.store.revision, ∃ s ∈ l.seen, s.revision = n

/-- What an empty store may have become. -/
inductive Grown (limit : Nat) : Lived → Prop
  | start : Grown limit (.start (.empty limit))
  | moved {l : Lived} {s : Store} (grown : Grown limit l) (m : Store.Moves l.store s) :
      Grown limit (l.moved s)

/-- The key was its owner's at a revision. -/
def Owned (l : Lived) (owner key : String) (n : Nat) : Prop :=
  ∃ s ∈ l.seen, s.revision = n ∧ heldBy owner (s.find? key) = true

/-- The key was not its owner's at some revision from `since` on. -/
def Lost (l : Lived) (owner key : String) (since : Nat) : Prop :=
  ∃ s ∈ l.seen, since ≤ s.revision ∧ heldBy owner (s.find? key) = false

variable {l m : Lived} {owner key : String} {n since : Nat}

theorem Owned.later (owned : l.Owned owner key n) (later : l.Later m) : m.Owned owner key n := by
  obtain ⟨s, seen, same⟩ := owned
  exact ⟨s, later.1 s seen, same⟩

theorem Lost.later (lost : l.Lost owner key since) (later : l.Later m) : m.Lost owner key since := by
  obtain ⟨s, seen, same⟩ := lost
  exact ⟨s, later.1 s seen, same⟩

theorem Owned.exact (right : l.Right) (owned : l.Owned owner key n) {s : Store} (seen : s ∈ l.seen)
    (revision : s.revision = n) : heldBy owner (s.find? key) = true := by
  obtain ⟨past, _, _, told⟩ := right
  obtain ⟨t, there, same, held⟩ := owned
  rw [← (told s seen).2, revision, ← same, (told t there).2]
  exact held

theorem Owned.le (right : l.Right) (owned : l.Owned owner key n) : n ≤ l.store.revision := by
  obtain ⟨past, _, _, told⟩ := right
  obtain ⟨t, there, rfl, _⟩ := owned
  exact (told t there).1

end Lived

theorem Store.Moves.revision_le {s t : Store} (m : Moves s t) : t.revision ≤ s.revision + 1 := by
  cases m with
  | serve r =>
    rcases serve_cases s r with same | ⟨key, value, _, written⟩ | ⟨e, _, _, erased⟩
    · rw [same.revision]
      omega
    · rw [written]
      exact Nat.le_refl _
    · rw [erased]
      exact Nat.le_refl _
  | compact revision =>
    rw [compact_revision]
    exact Nat.le_succ _
  | available | failCreations => exact Nat.le_succ _

namespace Lived

variable {l m : Lived} {owner key : String} {n since a : Nat}

theorem start_whole (limit : Nat) : (start (Store.empty limit)).Whole := by
  intro n le
  exact ⟨_, List.mem_singleton_self _, (Nat.le_zero.1 le).symm⟩

theorem Whole.moved (whole : l.Whole) {s : Store} (m : Store.Moves l.store s) : (l.moved s).Whole := by
  intro n le
  change n ≤ s.revision at le
  have step := m.revision_le
  by_cases old : n ≤ l.store.revision
  · obtain ⟨t, seen, same⟩ := whole n old
    exact ⟨t, List.mem_cons_of_mem s seen, same⟩
  · exact ⟨s, List.mem_cons_self, by omega⟩

theorem Answers.whole {r : Request} {x : r.Answer} (answer : l.Answers r x m) (whole : l.Whole) :
    m.Whole := by
  cases r with
  | store r =>
    rcases answer with ⟨s, served, rfl⟩ | ⟨_, rfl⟩
    · have moves := Store.Moves.serve l.store r
      rw [served] at moves
      exact whole.moved moves
    · exact whole
  | cache | chore | now | instant | sleep | pick | isLive | apply =>
    cases answer
    exact whole

theorem Grown.right {limit : Nat} (grown : l.Grown limit) : l.Right ∧ l.Whole := by
  induction grown with
  | start => exact ⟨start_right limit, start_whole limit⟩
  | moved _ m ih => exact ⟨(ih.1.moved m).1, ih.2.moved m⟩

/-! What a batch of events for one key says. -/

theorem confirms_event (owner : String) (e : Event) :
    (e.change == .put && heldBy owner (some e.entry)) = heldBy owner e.left := by
  unfold Event.left
  cases e.change <;> rfl

theorem mem_batch {s : Store} {key : String} {batch : Batch}
    (watched : s.watch (.key key) a = .ok (some batch)) {e : Event} :
    e ∈ batch.events ↔ e ∈ s.history ∧ a < e.revision ∧ e.entry.key = key := by
  obtain ⟨_, rfl⟩ := Store.watch_batch watched
  simp [Scope.covers]

/-- Events that leave a key with its owner leave it so all along. -/
theorem batch_owned (right : l.Right) (whole : l.Whole) {batch : Batch}
    (watched : l.store.watch (.key key) a = .ok (some batch)) (owned : l.Owned owner key a)
    (confirmed : LeaseMonitor.confirms owner (.events batch.events) = true) (low : a ≤ n)
    (high : n ≤ l.store.revision) : l.Owned owner key n := by
  obtain ⟨t, there, revision⟩ := whole n high
  obtain ⟨past, chronicle, _, told⟩ := right
  refine ⟨t, there, revision, ?_⟩
  rw [← (told t there).2, revision]
  rcases chronicle.since (Store.watch_batch watched).1 low high with same | ⟨e, mem, after, here, left⟩
  · obtain ⟨u, seen, at_, held⟩ := owned
    rw [same, ← at_, (told u seen).2]
    exact held
  · rw [left, ← confirms_event]
    exact List.all_eq_true.1 confirmed e ((mem_batch watched).2 ⟨mem, after, here⟩)

/-- An event that takes a key from its owner tells of a revision at which it was not his. -/
theorem batch_lost (right : l.Right) (whole : l.Whole) {batch : Batch}
    (watched : l.store.watch (.key key) a = .ok (some batch)) (le : since ≤ a)
    (refuted : LeaseMonitor.confirms owner (.events batch.events) = false) :
    l.Lost owner key since := by
  obtain ⟨e, mem, not⟩ := List.all_eq_false.1 refuted
  rw [confirms_event, Bool.not_eq_true] at not
  obtain ⟨mem, after, rfl⟩ := (mem_batch watched).1 mem
  obtain ⟨past, chronicle, _, told⟩ := right
  have bound : e.revision ≤ l.store.revision := by
    have h := List.mem_map_of_mem (f := (·.revision)) mem
    rw [chronicle.revisions, List.mem_range'_1] at h
    omega
  obtain ⟨t, there, revision⟩ := whole e.revision bound
  refine ⟨t, there, by omega, ?_⟩
  rw [← (told t there).2, revision, chronicle.onto e mem, Event.onto_key]
  exact not

end Lived

/-- A snapshot of one key shows what stands there. -/
theorem snapshot_head {s : Store} (asc : Store.Ascending s.entries) {key : String} {found : Snapshot}
    (read : s.range key = .ok found) :
    (found.entries.filter fun e => (Scope.key key).covers e.key).head? = s.find? key ∧
      found.revision = s.revision := by
  have within : s.range (Scope.key key).start = .ok found := read
  have onto := snapshot_onto asc within fun _ => none
  have here := congrFun onto.1 key
  change (found.entries.filter fun e => (Scope.key key).covers e.key).find? (·.key = key) =
    if (Scope.key key).covers key then s.find? key else none at here
  simp only [Scope.covers, List.find?_filter, List.head?_filter] at here ⊢
  exact ⟨by simpa [beq_eq_decide] using here, onto.2⟩

/-- A store with its past, and the batch that it told last and after which cursor, unless its last answer
was another. -/
structure Informed where
  world : Lived
  heard : Option (Nat × Batch)

namespace Informed

def hears : (r : Request) → r.Answer → Option (Nat × Batch)
  | .store (.watch _ after), .ok batch => some (after, batch)
  | _, _ => none

def Answers (i : Informed) (r : Request) (x : r.Answer) (j : Informed) : Prop :=
  i.world.Answers r x j.world ∧ j.heard = hears r x

end Informed

/-- The terms of one who minds what he is told. -/
def informed : Terms Informed where
  answers := Informed.Answers
  valid i := i.world.Right ∧ i.world.Whole
  rely i j := i.world.Later j.world ∧ j.heard = i.heard
  guarantee _ _ _ := True
  refl i := ⟨following.refl i.world, rfl⟩
  trans a b := ⟨following.trans a.1 b.1, b.2.trans a.2⟩

namespace Informed

variable {i j k : Informed} {α : Type}

theorem Answers.keeps {r : Request} {x : r.Answer} (answer : i.Answers r x j) (valid : informed.valid i) :
    informed.valid j ∧ i.world.Later j.world := by
  obtain ⟨right, later⟩ := answer.1.keeps valid.1
  exact ⟨⟨right, answer.1.whole valid.2⟩, later⟩

theorem ask_safe {post : α → Informed → Prop} {r : Request} {next : r.Answer → Program α}
    (rest : ∀ j x k, i.world.Later j.world → informed.valid j → j.Answers r x k → informed.valid k →
      j.world.Later k.world → Safe informed post (next x) k) : Safe informed post (.ask r next) i := by
  intro j rely valid x k answer
  obtain ⟨after, later⟩ := Answers.keeps answer valid
  exact ⟨after, trivial, rest j x k rely.1 valid answer after later⟩

/-- The store only goes on while a program runs. -/
theorem later_safe {post : α → Informed → Prop} {p : Program α} (safe : Safe informed post p i) :
    Safe informed (fun x j => post x j ∧ i.world.Later j.world) p i := by
  induction p generalizing i with
  | pure a =>
    intro j rely valid
    exact ⟨safe j rely valid, rely.1⟩
  | ask r next ih =>
    intro j rely valid x k answer
    obtain ⟨after, _, rest⟩ := safe j rely valid x k answer
    have later := following.trans rely.1 (Answers.keeps answer valid).2
    refine ⟨after, trivial, (ih x rest).weaken ?_⟩
    rintro y l _ ⟨done, last⟩
    exact ⟨done, following.trans later last⟩

/-- What an observation from a cursor on says of a key, to one who has started at the revision `since`. -/
structure Tells (owner key : String) (since : Nat) (cursor : Option Nat) (o : Observation)
    (i : Informed) : Prop where
  since_le : since ≤ o.cursor
  forward : ∀ a ∈ cursor, a ≤ o.cursor
  joined : ∀ a batch, i.heard = some (a, batch) → cursor = some a ∧ o.cursor = max batch.revision a
  owned : LeaseMonitor.confirms owner o.update = true → i.world.Owned owner key o.cursor
  throughout : LeaseMonitor.confirms owner o.update = true → ∀ a batch, i.heard = some (a, batch) →
    ∀ n, a ≤ n → n ≤ o.cursor → i.world.Owned owner key n
  lost : LeaseMonitor.confirms owner o.update = false → i.world.Lost owner key since

variable {owner key : String} {since : Nat} {cursor : Option Nat} {o : Observation}

theorem Tells.stays (tells : Tells owner key since cursor o i) (rely : informed.rely i j) :
    Tells owner key since cursor o j := by
  obtain ⟨later, heard⟩ := rely
  exact ⟨tells.since_le, tells.forward, heard ▸ tells.joined, fun all => (tells.owned all).later later,
    fun all a batch told n low high => (tells.throughout all a batch (heard ▸ told) n low high).later later,
    fun not => (tells.lost not).later later⟩

theorem tells_snapshot {l : Lived} {found : Snapshot} (right : l.Right)
    (read : l.store.range key = .ok found) (reached : ∀ a ∈ cursor, a ≤ l.store.revision)
    (begun : since ≤ l.store.revision) (later : l.Later i.world) (heard : i.heard = none) :
    Tells owner key since cursor (.ofSnapshot (.key key) found) i := by
  obtain ⟨past, chronicle, here, _⟩ := right
  obtain ⟨head, revision⟩ := snapshot_head chronicle.ascending read
  have shows : LeaseMonitor.confirms owner (Observation.ofSnapshot (.key key) found).update =
      heldBy owner (l.store.find? key) := congrArg (heldBy owner) head
  have seen : l.store ∈ i.world.seen := later.1 _ here
  have untold {a : Nat} {batch : Batch} (told : i.heard = some (a, batch)) : False := by
    rw [heard] at told
    cases told
  constructor
  · change since ≤ found.revision
    omega
  · intro a mem
    change a ≤ found.revision
    have := reached a mem
    omega
  · intro a batch told
    exact (untold told).elim
  · intro all
    exact ⟨l.store, seen, revision.symm, shows ▸ all⟩
  · intro _ a batch told
    exact (untold told).elim
  · intro not
    exact ⟨l.store, seen, begun, shows ▸ not⟩

theorem tells_batch {l : Lived} {a : Nat} {batch : Batch} (right : l.Right) (whole : l.Whole)
    (watched : l.store.watch (.key key) a = .ok (some batch)) (le : since ≤ a)
    (owned : l.Owned owner key a) (later : l.Later i.world) (heard : i.heard = some (a, batch)) :
    Tells owner key since (some a) (.ofBatch a batch) i := by
  have up : a ≤ max batch.revision a := Nat.le_max_right _ _
  have top : max batch.revision a = l.store.revision := by
    obtain ⟨_, rfl⟩ := Store.watch_batch watched
    exact Nat.max_eq_left (owned.le right)
  have all_along (all : LeaseMonitor.confirms owner (.events batch.events) = true) {n : Nat}
      (low : a ≤ n) (high : n ≤ max batch.revision a) : i.world.Owned owner key n :=
    (Lived.batch_owned right whole watched owned all low (top ▸ high)).later later
  constructor
  · exact Nat.le_trans le up
  · rintro _ ⟨⟩
    exact up
  · intro b other told
    rw [heard] at told
    cases told
    exact ⟨rfl, rfl⟩
  · intro all
    exact all_along all up (Nat.le_refl _)
  · intro all b other told n low high
    rw [heard] at told
    cases told
    exact all_along all low high
  · intro not
    exact (Lived.batch_lost right whole watched le not).later later

theorem readScope_tells (reached : ∀ a ∈ cursor, a ≤ i.world.store.revision)
    (begun : since ≤ i.world.store.revision) :
    Safe informed (fun x j => ∀ o, x = .ok o → Tells owner key since cursor o j)
      (readScope (.key key)) i := by
  apply ask_safe
  intro j x k before valid answer after later l rely _ o ok
  cases x with
  | error e => cases ok
  | ok found =>
    cases ok
    obtain ⟨⟨s, served, _⟩ | ⟨⟨e, same⟩, _⟩, heard⟩ := answer
    · have read : j.world.store.range key = .ok found := Option.some.inj (congrArg Prod.fst served)
      have tells : Tells owner key since cursor (.ofSnapshot (.key key) found) k :=
        tells_snapshot valid.1 read (fun a mem => Nat.le_trans (reached a mem) before.2)
          (Nat.le_trans begun before.2) later heard
      exact tells.stays rely
    · cases same

theorem watchFrom_tells (valid : informed.valid i)
    (owned : ∀ a ∈ cursor, since ≤ a ∧ i.world.Owned owner key a) (begun : since ≤ i.world.store.revision) :
    Safe informed (fun x j => ∀ o, x = .ok o → Tells owner key since cursor o j)
      (watchFrom (.key key) cursor) i := by
  have reached : ∀ a ∈ cursor, a ≤ i.world.store.revision := fun a mem => (owned a mem).2.le valid.1
  cases cursor with
  | none => exact readScope_tells reached begun
  | some a =>
    obtain ⟨le, owned⟩ := owned a rfl
    apply ask_safe
    intro j x k before valid answer after later
    cases x with
    | error e =>
      -- A compacted history is read anew, all other trouble is passed on.
      cases e with
      | compacted =>
        have on := following.trans before later
        exact readScope_tells (fun a mem => Nat.le_trans (reached a mem) on.2) (Nat.le_trans begun on.2)
      | unavailable | timeout | internal => exact fun _ _ _ o ok => nomatch ok
    | ok batch =>
      intro l rely _ o ok
      cases ok
      obtain ⟨⟨s, served, _⟩ | ⟨⟨e, same⟩, _⟩, heard⟩ := answer
      · have watched := Store.watch_served (congrArg Prod.fst served)
        exact (tells_batch valid.1 valid.2 watched le (owned.later before) later heard).stays rely
      · cases same

end Informed

end NetPool
