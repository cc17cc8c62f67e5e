import NetPool.Proofs.Interference
import NetPool.Proofs.Store.History
import NetPool.Store.Feed

/-! Following a scope. Whatever happens to the store between two requests, a consumer that applies
what it is told knows what the scope held at the revision of its cursor, and a feed sends just such
updates. -/

namespace NetPool

def Update.onto : Update → View → View
  | .snapshot es, _ => fun k => es.find? (·.key = k)
  | .events es, v => es.foldl (fun v e => e.onto v) v

/-- A store, and all the states that it has been in. -/
structure Lived where
  store : Store
  seen : List Store

namespace Lived

def start (s : Store) : Lived := ⟨s, [s]⟩

def moved (l : Lived) (s : Store) : Lived := ⟨s, s :: l.seen⟩

/-- An answer to a request: what the store says, or an error where the store is not even asked. -/
def Answers (l : Lived) : (r : Request) → r.Answer → Lived → Prop
  | .store r, x, after => (∃ s, l.store.serve r = (some x, s) ∧ after = l.moved s) ∨
      ((∃ e, x = .error e) ∧ after = l)
  | _, _, after => after = l

/-- What was seen can be told from the revisions alone. -/
def Right (l : Lived) : Prop := ∃ past, Store.Chronicle past l.store ∧ l.store ∈ l.seen ∧
  ∀ s ∈ l.seen, s.revision ≤ l.store.revision ∧ past s.revision = s.find?

def Later (l m : Lived) : Prop := (∀ s ∈ l.seen, s ∈ m.seen) ∧ l.store.revision ≤ m.store.revision

/-- The view is what the scope held at a revision. -/
def Held (l : Lived) (scope : Scope) (revision : Nat) (v : View) : Prop :=
  ∃ s ∈ l.seen, s.revision = revision ∧ scope.part s.find? = v

theorem start_right (limit : Nat) : (start (Store.empty limit)).Right := by
  refine ⟨_, Store.empty_chronicle limit, List.mem_singleton_self _, fun s seen => ?_⟩
  cases List.mem_singleton.1 seen
  exact ⟨Nat.le_refl _, rfl⟩

theorem Right.moved {l : Lived} (right : l.Right) {s : Store} (m : Store.Moves l.store s) :
    (l.moved s).Right ∧ l.Later (l.moved s) := by
  obtain ⟨past, chronicle, now, told⟩ := right
  obtain ⟨up, later, kept, same⟩ := chronicle.move m
  refine ⟨⟨later, kept, List.mem_cons_self, fun t seen => ?_⟩,
    fun t seen => List.mem_cons_of_mem _ seen, up⟩
  rcases List.mem_cons.1 seen with rfl | old
  · exact ⟨Nat.le_refl _, kept.now⟩
  · obtain ⟨low, here⟩ := told t old
    exact ⟨Nat.le_trans low up, (same _ low).trans here⟩

theorem Answers.keeps {l m : Lived} {r : Request} {x : r.Answer} (answer : l.Answers r x m)
    (right : l.Right) : m.Right ∧ l.Later m := by
  have idle : m = l → m.Right ∧ l.Later m := by
    rintro rfl
    exact ⟨right, fun _ seen => seen, Nat.le_refl _⟩
  cases r with
  | store r =>
    rcases answer with ⟨s, served, rfl⟩ | ⟨_, same⟩
    · have moved := Store.Moves.serve l.store r
      rw [served] at moved
      exact right.moved moved
    · exact idle same
  | cache | chore | now | instant | sleep | pick | isLive | apply => exact idle answer

theorem Held.later {l m : Lived} {scope : Scope} {n : Nat} {v : View} (held : l.Held scope n v)
    (later : l.Later m) : m.Held scope n v := by
  obtain ⟨s, seen, same⟩ := held
  exact ⟨s, later.1 s seen, same⟩

theorem Held.eq {l : Lived} (right : l.Right) {scope : Scope} {n : Nat} {v : View}
    (held : l.Held scope n v) {s : Store} (seen : s ∈ l.seen) (revision : s.revision = n) :
    v = scope.part s.find? := by
  obtain ⟨past, _, _, told⟩ := right
  obtain ⟨t, there, same, rfl⟩ := held
  rw [← (told s seen).2, ← (told t there).2, same, revision]

theorem Held.le {l : Lived} (right : l.Right) {scope : Scope} {n : Nat} {v : View}
    (held : l.Held scope n v) : n ≤ l.store.revision := by
  obtain ⟨past, _, _, told⟩ := right
  obtain ⟨t, there, rfl, _⟩ := held
  exact (told t there).1

end Lived

/-- The terms of one who follows: everything may happen. -/
def following : Terms Lived where
  answers := Lived.Answers
  valid := Lived.Right
  rely := Lived.Later
  guarantee := fun _ _ _ => True
  refl := fun _ => ⟨fun _ seen => seen, Nat.le_refl _⟩
  trans := fun a b => ⟨fun s seen => b.1 s (a.1 s seen), Nat.le_trans a.2 b.2⟩

/-- An observation that takes a view from one cursor to a later one. -/
def Observation.Leads (l : Lived) (scope : Scope) (cursor : Option Nat) (v : View)
    (o : Observation) : Prop :=
  (∀ n ∈ cursor, n ≤ o.cursor) ∧ l.Held scope o.cursor (o.update.onto v)

theorem Observation.Leads.later {l m : Lived} {scope : Scope} {cursor : Option Nat} {v : View}
    {o : Observation} (leads : o.Leads l scope cursor v) (later : l.Later m) :
    o.Leads m scope cursor v := ⟨leads.1, leads.2.later later⟩

theorem startsWith_start {scope : Scope} {k : String} (covered : scope.covers k = true) :
    startsWith k scope.start = true := by
  cases scope with
  | key name =>
    have same : k = name := by simpa [Scope.covers] using covered
    rw [same]
    exact startsWith_iff.2 (List.prefix_refl _)
  | under start => exact covered

/-- A read of the scope finds all of it, by prefix also where the scope is a single key. -/
theorem snapshot_onto {s : Store} (asc : Store.Ascending s.entries) {scope : Scope} {found : Snapshot}
    (read : s.range scope.start = .ok found) (v : View) :
    (Observation.ofSnapshot scope found).update.onto v = scope.part s.find? ∧
      found.revision = s.revision := by
  rw [Store.range_eq asc] at read
  cases h : s.reachable with
  | error e => rw [h] at read; cases read
  | ok u =>
    rw [h] at read
    cases read
    refine ⟨?_, rfl⟩
    funext k
    change ((s.entries.filter (startsWith ·.key scope.start)).filter (scope.covers ·.key)).find?
      (·.key = k) = if scope.covers k then s.entries.find? (·.key = k) else none
    rw [List.filter_filter, ← find?_filter_key KeyValue.key scope.covers]
    congr 1
    apply List.filter_congr
    intro e _
    cases covered : scope.covers e.key with
    | false => rfl
    | true => rw [startsWith_start covered]; rfl

theorem readScope_safe {l : Lived} (scope : Scope) {cursor : Option Nat} {v : View}
    (reached : ∀ n ∈ cursor, n ≤ l.store.revision) :
    Safe following (fun x m => ∀ o, x = .ok o → o.Leads m scope cursor v) (readScope scope) l := by
  intro m later right x after (answer : m.Answers _ x after)
  obtain ⟨kept, on⟩ := answer.keeps right
  refine ⟨kept, trivial, fun n next valid o ok => ?_⟩
  rcases answer with ⟨s, served, rfl⟩ | ⟨⟨e, rfl⟩, _⟩
  · cases served
    cases read : m.store.range scope.start with
    | error e => rw [read] at ok; cases ok
    | ok found =>
      rw [read] at ok
      cases ok
      obtain ⟨past, chronicle, _⟩ := right
      obtain ⟨same, revision⟩ := snapshot_onto chronicle.ascending read v
      have held : Lived.Held (m.moved m.store) scope found.revision _ :=
        ⟨m.store, List.mem_cons_self, revision.symm, same.symm⟩
      refine ⟨fun n mem => ?_, held.later next⟩
      change n ≤ found.revision
      rw [revision]
      exact Nat.le_trans (reached n mem) later.2
  · cases ok

theorem watchFrom_safe {l : Lived} {scope : Scope} {cursor : Option Nat} {v : View}
    (held : ∀ n ∈ cursor, l.Held scope n v) :
    Safe following (fun x m => ∀ o, x = .ok o → o.Leads m scope cursor v)
      (watchFrom scope cursor) l := by
  cases cursor with
  | none => exact readScope_safe scope fun n mem => nomatch mem
  | some cursor =>
    have view := held cursor rfl
    intro m later valid x after (answer : m.Answers _ x after)
    obtain ⟨kept, on⟩ := answer.keeps valid
    refine ⟨kept, trivial, ?_⟩
    have reached := (view.later (following.trans later on)).le kept
    cases x with
    | error e =>
      -- A compacted history is read anew, all other trouble is passed on.
      cases e with
      | compacted revision floor =>
        apply readScope_safe
        intro n (mem : some cursor = some n)
        cases mem
        exact reached
      | unavailable | timeout | internal => exact fun _ _ _ o ok => nomatch ok
    | ok batch =>
      rcases answer with ⟨s, served, rfl⟩ | ⟨⟨e, same⟩, _⟩
      · have watched : m.store.watch scope cursor = .ok (some batch) :=
          Store.watch_served (congrArg Prod.fst served)
        have same : s = m.store := by
          have unchanged := Store.serve_watch_snd m.store scope cursor
          rwa [served] at unchanged
        subst same
        intro n next _ o ok
        cases ok
        obtain ⟨floor, rfl⟩ := Store.watch_batch watched
        have low := (view.later later).le valid
        obtain ⟨past, chronicle, _, told⟩ := valid
        have top : max m.store.revision cursor = m.store.revision := Nat.max_eq_left low
        refine ⟨fun n (mem : some cursor = some n) => ?_, ?_⟩
        · cases mem
          exact Nat.le_max_right _ _
        · obtain ⟨t, there, rfl, rfl⟩ := view.later later
          have caught := chronicle.catch_up scope floor low
          rw [(told t there).2] at caught
          exact Lived.Held.later ⟨m.store, List.mem_cons_self, top.symm, caught.symm⟩ next
      · cases same

end NetPool
