import NetPool.Proofs.Store.Order

/-! What a request can do to the data of a store: nothing, the write of one key, or the removal of one
entry. All that is proved of runs of a store goes by these three cases. -/

namespace NetPool

/-- A request that may add an entry. -/
def StoreRequest.adds : StoreRequest → Bool
  | .create _ _ => true
  | .put _ _ => true
  | _ => false

/-- A request that may take an entry away, or write over it. -/
def StoreRequest.removes : StoreRequest → Bool
  | .put _ _ => true
  | .delete _ => true
  | .compareAndDelete _ _ => true
  | _ => false

def StoreRequest.locks : StoreRequest → Bool
  | .lock _ => true
  | .unlock _ => true
  | _ => false

/-- The key that a request has written or deleted, by the answer to it. -/
def StoreRequest.wrote : (r : StoreRequest) → Except StoreError r.Result → Option String
  | .create key _, .ok (.created _) => some key
  | .put key _, .ok _ => some key
  | .delete key, .ok true => some key
  | .compareAndDelete key _, .ok true => some key
  | _, _ => none

@[simp] theorem StoreRequest.wrote_error (r : StoreRequest) (e : StoreError) : r.wrote (.error e) = none := by
  cases r <;> rfl

/-- The entries that a request has read, by the answer to it. -/
def StoreRequest.read : (r : StoreRequest) → Except StoreError r.Result → Option (List KeyValue)
  | .range _, .ok found => some found.entries
  | .get _, .ok found => some found.toList
  | _, _ => none

namespace Store

@[simp] theorem record_entries (s : Store) (e : Event) : (s.record e).entries = s.entries := rfl
@[simp] theorem record_revision (s : Store) (e : Event) : (s.record e).revision = s.revision := rfl
@[simp] theorem record_historyLimit (s : Store) (e : Event) :
    (s.record e).historyLimit = s.historyLimit := rfl
@[simp] theorem record_locks (s : Store) (e : Event) : (s.record e).locks = s.locks := rfl
@[simp] theorem record_available (s : Store) (e : Event) :
    (s.record e).available = s.available := rfl
@[simp] theorem record_failingCreations (s : Store) (e : Event) :
    (s.record e).failingCreations = s.failingCreations := rfl

def written (s : Store) (key : String) (value : Bytes) : KeyValue where
  key := key
  value := value
  created := ((s.find? key).map (·.created)).getD (s.revision + 1)
  modified := s.revision + 1

theorem write_eq (s : Store) (key : String) (value : Bytes) : s.write key value =
    record { s with revision := s.revision + 1, entries := place (s.written key value) s.entries }
      { change := .put, entry := s.written key value, revision := s.revision + 1 } := rfl

theorem erase_eq (s : Store) (e : KeyValue) : s.erase e =
    record { s with revision := s.revision + 1, entries := s.entries.filter (·.key ≠ e.key) }
      { change := .delete, entry := e, revision := s.revision + 1 } := rfl

theorem mem_write {s : Store} (asc : Ascending s.entries) {key : String} {value : Bytes}
    {e : KeyValue} : e ∈ (s.write key value).entries ↔
      e = s.written key value ∨ (e ∈ s.entries ∧ e.key ≠ key) := by
  rw [write_eq, record_entries]
  exact mem_place asc

theorem mem_erase {s : Store} {gone e : KeyValue} :
    e ∈ (s.erase gone).entries ↔ e ∈ s.entries ∧ e.key ≠ gone.key := by
  rw [erase_eq, record_entries, List.mem_filter, decide_eq_true_iff]

theorem write_ascending {s : Store} (asc : Ascending s.entries) (key : String) (value : Bytes) :
    Ascending (s.write key value).entries := place_ascending asc _

theorem erase_ascending {s : Store} (asc : Ascending s.entries) (e : KeyValue) :
    Ascending (s.erase e).entries := asc.filter _

theorem find?_write {s : Store} (asc : Ascending s.entries) (key : String) (value : Bytes)
    (k : String) : (s.write key value).find? k =
      if k = key then some (s.written key value) else s.find? k := by
  apply Option.ext
  intro e
  rw [find?_eq_some_iff (write_ascending asc key value), mem_write asc]
  split
  · rename_i same
    subst same
    constructor
    · rintro ⟨rfl | ⟨_, ne⟩, eq⟩
      · rfl
      · exact absurd eq ne
    · intro h
      cases Option.some.inj h
      exact ⟨.inl rfl, rfl⟩
  · rename_i ne
    rw [find?_eq_some_iff asc]
    constructor
    · rintro ⟨rfl | ⟨mem, _⟩, rfl⟩
      · exact absurd rfl ne
      · exact ⟨mem, rfl⟩
    · rintro ⟨mem, rfl⟩
      exact ⟨.inr ⟨mem, ne⟩, rfl⟩

theorem find?_erase {s : Store} (asc : Ascending s.entries) (gone : KeyValue) (k : String) :
    (s.erase gone).find? k = if k = gone.key then none else s.find? k := by
  apply Option.ext
  intro e
  rw [find?_eq_some_iff (erase_ascending asc gone), mem_erase]
  split
  · rename_i same
    constructor
    · rintro ⟨⟨_, ne⟩, eq⟩
      exact absurd (eq.trans same) ne
    · intro h; cases h
  · rename_i ne
    rw [find?_eq_some_iff asc]
    constructor
    · rintro ⟨⟨mem, _⟩, eq⟩
      exact ⟨mem, eq⟩
    · rintro ⟨mem, rfl⟩
      exact ⟨⟨mem, ne⟩, rfl⟩

/-- The same data; locks and the state of the service may differ. -/
structure SameData (s t : Store) : Prop where
  revision : t.revision = s.revision
  entries : t.entries = s.entries
  history : t.history = s.history
  floor : t.floor = s.floor
  historyLimit : t.historyLimit = s.historyLimit

theorem SameData.refl (s : Store) : SameData s s := ⟨rfl, rfl, rfl, rfl, rfl⟩

theorem SameData.symm {s t : Store} (same : SameData s t) : SameData t s :=
  ⟨same.revision.symm, same.entries.symm, same.history.symm, same.floor.symm, same.historyLimit.symm⟩

theorem SameData.trans {s t u : Store} (first : SameData s t) (second : SameData t u) : SameData s u :=
  ⟨second.revision.trans first.revision, second.entries.trans first.entries,
    second.history.trans first.history, second.floor.trans first.floor,
    second.historyLimit.trans first.historyLimit⟩

theorem SameData.find? {s t : Store} (same : SameData s t) (key : String) : t.find? key = s.find? key := by
  rw [Store.find?, same.entries]
  rfl

/-- A write does the same to the same data. -/
theorem SameData.write {s t : Store} (same : SameData s t) (key : String) (value : Bytes) :
    SameData (s.write key value) (t.write key value) := by
  cases s
  cases t
  obtain ⟨revision, entries, history, floor, historyLimit⟩ := same
  dsimp only at revision entries history floor historyLimit
  subst revision entries history floor historyLimit
  exact ⟨rfl, rfl, rfl, rfl, rfl⟩

theorem compact_entries (s : Store) (n : Nat) : (s.compact n).2.entries = s.entries := by
  unfold compact
  dsimp only
  split <;> rfl

theorem compact_revision (s : Store) (n : Nat) : (s.compact n).2.revision = s.revision := by
  unfold compact
  dsimp only
  split <;> rfl

theorem put_cases (s : Store) (key : String) (value : Bytes) :
    (s.put key value).2 = s ∨ (s.put key value).2 = s.write key value := by
  unfold put
  cases s.reachable with
  | error e => exact .inl rfl
  | ok u => exact .inr rfl

theorem delete_cases (s : Store) (key : String) :
    (s.delete key).2 = s ∨
      ∃ e, s.find? key = some e ∧ s.delete key = (.ok true, s.erase e) := by
  unfold delete
  cases s.reachable with
  | error e => exact .inl rfl
  | ok u =>
    cases h : s.find? key with
    | none => exact .inl rfl
    | some e => exact .inr ⟨e, rfl, rfl⟩

theorem compareAndDelete_cases (s : Store) (key : String) (modified : Nat) :
    (s.compareAndDelete key modified).2 = s ∨
      ∃ e, s.find? key = some e ∧ e.modified = modified ∧
        s.compareAndDelete key modified = (.ok true, s.erase e) := by
  unfold compareAndDelete
  cases s.reachable with
  | error e => exact .inl rfl
  | ok u =>
    cases h : s.find? key with
    | none => exact .inl rfl
    | some e =>
      dsimp only
      split
      · rename_i same; exact .inr ⟨e, rfl, same, rfl⟩
      · exact .inl rfl

theorem lock_cases (s : Store) (name : String) :
    (s.lock name).2 = s ∨
      (s.isLocked name = false ∧
        s.lock name = (.ok (some { name, token := s.lastToken + 1 }),
          { s with locks := { name, token := s.lastToken + 1 } :: s.locks
                   lastToken := s.lastToken + 1 })) := by
  unfold lock
  cases s.reachable with
  | error e => exact .inl rfl
  | ok u =>
    dsimp only
    split
    · exact .inl rfl
    · rename_i free; exact .inr ⟨by simpa using free, rfl⟩

theorem unlock_cases (s : Store) (grant : Grant) :
    (s.unlock grant).2 = s ∨
      (s.unlock grant).2 = { s with locks := s.locks.filter (· ≠ grant) } := by
  unfold unlock
  split
  · exact .inr rfl
  · exact .inl rfl

theorem find?_key {s : Store} {key : String} {e : KeyValue} (h : s.find? key = some e) :
    e.key = key := by simpa using List.find?_some h

theorem serve_lock_snd (s : Store) (name : String) :
    (s.serve (.lock name)).2 = (s.lock name).2 := by
  simp only [serve]
  rcases s.lock name with ⟨x, t⟩
  cases x with
  | error e => rfl
  | ok g => cases g <;> rfl

theorem serve_watch_snd (s : Store) (scope : Scope) (after : Nat) :
    (s.serve (.watch scope after)).2 = s := by
  simp only [serve]
  cases s.watch scope after with
  | error e => rfl
  | ok b => cases b <;> rfl

/-- An answer tells what has been written or deleted. -/
theorem serve_wrote {s : Store} {r : StoreRequest} {x : Except StoreError r.Result}
    (answer : (s.serve r).1 = some x) :
    (r.wrote x = none ∧ SameData s (s.serve r).2) ∨
      (∃ key value, r.wrote x = some key ∧
        (r = .create key value ∧ s.find? key = none ∨ r = .put key value) ∧
        (s.serve r).2 = s.write key value) ∨
      ∃ e, r.wrote x = some e.key ∧ (r = .delete e.key ∨ r = .compareAndDelete e.key e.modified) ∧
        s.find? e.key = some e ∧ (s.serve r).2 = s.erase e := by
  have same {t : Store} (h : t = s) : SameData s t := h ▸ .refl s
  cases r with
  | range start => exact .inl ⟨rfl, .refl s⟩
  | get key => exact .inl ⟨rfl, .refl s⟩
  | watch scope after => exact .inl ⟨rfl, same (serve_watch_snd s scope after)⟩
  | lock name =>
    rw [serve_lock_snd]
    rcases lock_cases s name with h | ⟨_, h⟩
    · exact .inl ⟨rfl, same h⟩
    · rw [h]
      exact .inl ⟨rfl, rfl, rfl, rfl, rfl, rfl⟩
  | unlock grant =>
    refine .inl ⟨rfl, ?_⟩
    rcases unlock_cases s grant with h | h
    · exact same h
    · exact ⟨congrArg (·.revision) h, congrArg (·.entries) h, congrArg (·.history) h,
        congrArg (·.floor) h, congrArg (·.historyLimit) h⟩
  | put key value =>
    cases Option.some.inj answer
    simp only [serve, put]
    cases s.reachable with
    | error e => exact .inl ⟨rfl, .refl s⟩
    | ok u => exact .inr (.inl ⟨key, value, rfl, .inr rfl, rfl⟩)
  | create key value =>
    cases Option.some.inj answer
    simp only [serve, create]
    cases s.reachable with
    | error e => exact .inl ⟨rfl, .refl s⟩
    | ok u =>
      dsimp only
      split
      · exact .inl ⟨rfl, rfl, rfl, rfl, rfl, rfl⟩
      · split
        · exact .inl ⟨rfl, .refl s⟩
        · rename_i free
          exact .inr (.inl ⟨key, value, rfl, .inl ⟨rfl, by simpa using free⟩, rfl⟩)
  | delete key =>
    cases Option.some.inj answer
    simp only [serve, delete]
    cases s.reachable with
    | error e => exact .inl ⟨rfl, .refl s⟩
    | ok u =>
      cases found : s.find? key with
      | none => exact .inl ⟨rfl, .refl s⟩
      | some e =>
        cases find?_key found
        exact .inr (.inr ⟨e, rfl, .inl rfl, found, rfl⟩)
  | compareAndDelete key modified =>
    cases Option.some.inj answer
    simp only [serve, compareAndDelete]
    cases s.reachable with
    | error e => exact .inl ⟨rfl, .refl s⟩
    | ok u =>
      cases found : s.find? key with
      | none => exact .inl ⟨rfl, .refl s⟩
      | some e =>
        cases find?_key found
        dsimp only
        split
        · rename_i same
          cases same
          exact .inr (.inr ⟨e, rfl, .inr rfl, found, rfl⟩)
        · exact .inl ⟨rfl, .refl s⟩

theorem serve_created {s : Store} {key : String} {value : Bytes} {revision : Nat}
    (answer : (s.serve (.create key value)).1 = some (.ok (.created revision))) :
    s.find? key = none ∧ (s.serve (.create key value)).2 = s.write key value := by
  rcases serve_wrote answer with ⟨unwritten, _⟩ | ⟨k, v, _, writes, written⟩ | ⟨_, _, erases, _⟩
  · cases unwritten
  · rcases writes with ⟨same, free⟩ | same <;> cases same
    exact ⟨free, written⟩
  · rcases erases with same | same <;> cases same

/-- A key is deleted unless it is absent. -/
theorem find?_of_not_deleted {s : Store} {key : String}
    (answer : (s.serve (.delete key)).1 = some (.ok false)) : s.find? key = none := by
  have answer : (s.delete key).1 = .ok false := Option.some.inj answer
  unfold delete at answer
  cases reached : s.reachable with
  | error e =>
    rw [reached] at answer
    cases answer
  | ok u =>
    cases found : s.find? key with
    | none => rfl
    | some e =>
      rw [reached, found] at answer
      cases answer

/-- What a request can do to the data, and which requests do it. -/
theorem serve_cases (s : Store) (r : StoreRequest) :
    SameData s (s.serve r).2 ∨
      (∃ key value, (r = .create key value ∧ s.find? key = none ∨ r = .put key value) ∧
        (s.serve r).2 = s.write key value) ∨
      ∃ e, (r = .delete e.key ∨ r = .compareAndDelete e.key e.modified) ∧
        s.find? e.key = some e ∧ (s.serve r).2 = s.erase e := by
  cases answer : (s.serve r).1 with
  | some x =>
    rcases serve_wrote answer with ⟨_, same⟩ | ⟨key, value, _, written⟩ | ⟨e, _, erased⟩
    · exact .inl same
    · exact .inr (.inl ⟨key, value, written⟩)
    · exact .inr (.inr ⟨e, erased⟩)
  | none =>
    -- Only these two can be left waiting, and they do not touch the data.
    cases r with
    | lock name =>
      rw [serve_lock_snd]
      rcases lock_cases s name with h | ⟨_, h⟩ <;> rw [h] <;> exact .inl ⟨rfl, rfl, rfl, rfl, rfl⟩
    | watch scope after =>
      rw [serve_watch_snd]
      exact .inl (.refl s)
    | range | get | create | put | delete | compareAndDelete | unlock => cases answer

theorem serve_ascending {s : Store} (asc : Ascending s.entries) (r : StoreRequest) :
    Ascending (s.serve r).2.entries := by
  rcases s.serve_cases r with same | ⟨key, value, _, h⟩ | ⟨e, _, _, h⟩
  · rw [same.entries]
    exact asc
  · rw [h]
    exact write_ascending asc key value
  · rw [h]
    exact erase_ascending asc e

theorem mem_of_mem_serve {s : Store} {r : StoreRequest} (adds : r.adds = false) {e : KeyValue}
    (mem : e ∈ (s.serve r).2.entries) : e ∈ s.entries := by
  rcases s.serve_cases r with same | ⟨key, value, writes, _⟩ | ⟨gone, _, _, erased⟩
  · exact same.entries ▸ mem
  · rcases writes with ⟨rfl, _⟩ | rfl <;> cases adds
  · rw [erased] at mem
    exact (mem_erase.1 mem).1

theorem mem_serve_of_mem {s : Store} (asc : Ascending s.entries) {r : StoreRequest}
    (removes : r.removes = false) {e : KeyValue} (mem : e ∈ s.entries) : e ∈ (s.serve r).2.entries := by
  rcases s.serve_cases r with same | ⟨key, value, writes, written⟩ | ⟨gone, erases, _⟩
  · exact same.entries.symm ▸ mem
  · rcases writes with ⟨rfl, free⟩ | rfl
    · rw [written]
      refine (mem_write asc).2 (.inr ⟨mem, ?_⟩)
      rintro rfl
      rw [(find?_eq_some_iff asc).2 ⟨mem, rfl⟩] at free
      cases free
    · cases removes
  · rcases erases with rfl | rfl <;> cases removes

/-- What a request leaves as it is: the state of the service, and the locks unless it is about one. -/
structure Frame (s t : Store) (r : StoreRequest) : Prop where
  available : t.available = s.available
  working : s.failingCreations = 0 → t.failingCreations = 0
  locks : r.locks = false → t.locks = s.locks
  tokens : r.locks = false → t.lastToken = s.lastToken

theorem serve_frame (s : Store) (r : StoreRequest) : Frame s (s.serve r).2 r := by
  have same {t : Store} (h : t = s) : Frame s t r := by
    rw [h]
    exact ⟨rfl, id, fun _ => rfl, fun _ => rfl⟩
  have write {t : Store} {key value} (h : t = s.write key value) : Frame s t r := by
    rw [h]
    exact ⟨rfl, id, fun _ => rfl, fun _ => rfl⟩
  have erase {t : Store} {e} (h : t = s.erase e) : Frame s t r := by
    rw [h]
    exact ⟨rfl, id, fun _ => rfl, fun _ => rfl⟩
  cases r with
  | range start => exact same rfl
  | get key => exact same rfl
  | watch scope after => exact same (serve_watch_snd s scope after)
  | put key value =>
    rcases put_cases s key value with h | h
    · exact same h
    · exact write h
  | create key value =>
    change Frame s (s.create key value).2 _
    unfold create
    split
    · exact same rfl
    · split
      · rename_i failing
        exact ⟨rfl, fun zero => by omega, fun _ => rfl, fun _ => rfl⟩
      · split
        · exact same rfl
        · exact write rfl
  | delete key =>
    rcases delete_cases s key with h | ⟨e, _, h⟩
    · exact same h
    · exact erase (congrArg Prod.snd h)
  | compareAndDelete key modified =>
    rcases compareAndDelete_cases s key modified with h | ⟨e, _, _, h⟩
    · exact same h
    · exact erase (congrArg Prod.snd h)
  | lock name =>
    rw [serve_lock_snd]
    rcases lock_cases s name with h | ⟨_, h⟩ <;> rw [h]
    · exact same rfl
    · exact ⟨rfl, id, nofun, nofun⟩
  | unlock grant =>
    rcases unlock_cases s grant with h | h
    · exact same h
    · change Frame s (s.unlock grant).2 _
      rw [h]
      exact ⟨rfl, id, nofun, nofun⟩

theorem range_found {s : Store} (asc : Ascending s.entries) {start : String} {found : Snapshot}
    (answer : (s.serve (.range start)).1 = some (.ok found)) :
    found.entries = s.entries.filter (startsWith ·.key start) := by
  have read : s.range start = .ok found := Option.some.inj answer
  rw [range_eq asc] at read
  cases reached : s.reachable with
  | error e =>
    rw [reached] at read
    cases read
  | ok u =>
    rw [reached] at read
    cases read
    rfl

theorem get_found {s : Store} {key : String} {found : Option KeyValue}
    (answer : (s.serve (.get key)).1 = some (.ok found)) : found = s.find? key := by
  have read : s.get key = .ok found := Option.some.inj answer
  unfold get at read
  cases reached : s.reachable with
  | error e =>
    rw [reached] at read
    cases read
  | ok u =>
    rw [reached] at read
    cases read
    rfl

theorem mem_of_read {s : Store} (asc : Ascending s.entries) {r : StoreRequest}
    {x : Except StoreError r.Result} (answer : (s.serve r).1 = some x) {found : List KeyValue}
    (read : r.read x = some found) {e : KeyValue} (mem : e ∈ found) : e ∈ s.entries := by
  cases r with
  | range start =>
    cases x with
    | error e => cases read
    | ok snapshot =>
      cases read
      rw [range_found asc answer] at mem
      exact (List.mem_filter.1 mem).1
  | get key =>
    cases x with
    | error e => cases read
    | ok entry =>
      cases read
      rw [get_found answer] at mem
      exact ((find?_eq_some_iff asc).1 (Option.mem_toList.1 mem)).1
  | create | put | delete | compareAndDelete | watch | lock | unlock => cases read

/-! A store that is available and fails no creation. -/

theorem reachable_eq {s : Store} (available : s.available = true) : s.reachable = .ok () := by
  rw [reachable, if_pos available]

theorem range_of_available {s : Store} (asc : Ascending s.entries) (available : s.available = true)
    (start : String) : s.range start =
      .ok { entries := s.entries.filter (startsWith ·.key start), revision := s.revision } := by
  rw [range_eq asc, reachable_eq available]
  rfl

theorem serve_lock_of_available {s : Store} (available : s.available = true) {name : String} {x}
    (answer : (s.serve (.lock name)).1 = some x) : s.isLocked name = false ∧
      x = .ok { name, token := s.lastToken + 1 } ∧ (s.serve (.lock name)).2 =
        { s with locks := { name, token := s.lastToken + 1 } :: s.locks
                 lastToken := s.lastToken + 1 } := by
  simp only [serve, lock, reachable_eq available] at answer ⊢
  cases locked : s.isLocked name with
  | true => simp [locked] at answer
  | false =>
    simp only [locked, Bool.false_eq_true, if_false, Option.some.injEq, true_and, and_true] at answer ⊢
    exact answer.symm

/-- The grant of a lock that is free. -/
def grant (s : Store) (name : String) : Grant := { name, token := s.lastToken + 1 }

/-- A store that has handed out the grant of a lock. -/
def granted (s : Store) (name : String) : Store :=
  { s with locks := s.grant name :: s.locks, lastToken := s.lastToken + 1 }

theorem serve_lock_of_free {s : Store} (available : s.available = true) {name : String}
    (free : s.isLocked name = false) :
    s.serve (.lock name) = (some (.ok (s.grant name)), s.granted name) := by
  rw [serve, lock, reachable_eq available]
  simp only [free, Bool.false_eq_true, if_false]
  rfl

theorem sameData_unlock (s : Store) (g : Grant) : SameData s (s.unlock g).2 := by
  rcases unlock_cases s g with same | same <;> rw [same]
  · exact .refl s
  · exact ⟨rfl, rfl, rfl, rfl, rfl⟩

theorem isLocked_unlock {s t : Store} {name : String} (held : t.locks = (s.granted name).locks)
    (free : s.isLocked name = false) : (t.unlock (s.grant name)).2.isLocked name = false := by
  have mem : s.grant name ∈ t.locks := held ▸ List.mem_cons_self
  rw [unlock, if_pos mem, held]
  rw [isLocked, List.any_eq_false] at free ⊢
  intro g there
  obtain ⟨there, other⟩ := List.mem_filter.1 there
  rcases List.mem_cons.1 there with rfl | before
  · exact absurd rfl (of_decide_eq_true other)
  · exact free g before

theorem create_of_available {s : Store} (available : s.available = true)
    (working : s.failingCreations = 0) (key : String) (value : Bytes) :
    ((s.find? key).isSome ∧ s.create key value = (.ok .alreadyExists, s)) ∨
      (s.find? key = none ∧
        s.create key value = (.ok (.created (s.revision + 1)), s.write key value)) := by
  unfold create
  rw [reachable_eq available]
  cases found : s.find? key with
  | none => exact .inr (by simp [working])
  | some e => exact .inl (by simp [working])

theorem delete_of_available {s : Store} (available : s.available = true) (key : String) :
    ∃ gone t, s.delete key = (.ok gone, t) ∧ t.available = true ∧
      (gone = true ↔ ∃ e ∈ s.entries, e.key = key) ∧ ∀ e, e ∈ t.entries ↔ e ∈ s.entries ∧ e.key ≠ key := by
  rw [delete, reachable_eq available]
  dsimp only
  cases found : s.find? key with
  | none =>
    have absent : ∀ e ∈ s.entries, e.key ≠ key := fun e mem same => by
      simpa [same] using List.find?_eq_none.1 found e mem
    have nothing : ¬ ∃ e ∈ s.entries, e.key = key := by
      rintro ⟨e, mem, same⟩
      exact absent e mem same
    refine ⟨false, s, rfl, available, iff_of_false Bool.false_ne_true nothing, fun e => ?_⟩
    exact ⟨fun mem => ⟨mem, absent e mem⟩, And.left⟩
  | some d =>
    have same := find?_key found
    refine ⟨true, s.erase d, rfl, available, ⟨fun _ => ⟨d, List.mem_of_find?_eq_some found, same⟩, fun _ => rfl⟩,
      fun e => ?_⟩
    rw [mem_erase, same]

theorem ne_of_mem_delete {s : Store} (available : s.available = true) {key : String} {e : KeyValue}
    (mem : e ∈ (s.delete key).2.entries) : e.key ≠ key := by
  obtain ⟨_, t, served, _, _, left⟩ := delete_of_available available key
  rw [served] at mem
  exact ((left e).1 mem).2

/-- A store that answers, and keeps its entries in order. -/
structure Serving (s : Store) : Prop where
  ascending : Ascending s.entries
  available : s.available = true
  working : s.failingCreations = 0

theorem Serving.serve_taken {s : Store} (serving : s.Serving) {key : String}
    (taken : (s.find? key).isSome = true) (value : Bytes) :
    s.serve (.create key value) = (some (.ok .alreadyExists), s) := by
  rw [serve, create, reachable_eq serving.available]
  simp [serving.working, taken]

theorem Serving.serve_created {s : Store} (serving : s.Serving) {key : String} (free : s.find? key = none)
    (value : Bytes) :
    s.serve (.create key value) = (some (.ok (.created (s.revision + 1))), s.write key value) := by
  rw [serve, create, reachable_eq serving.available]
  simp [serving.working, free]

theorem Serving.serve_put {s : Store} (serving : s.Serving) (key : String) (value : Bytes) :
    s.serve (.put key value) = (some (.ok (s.revision + 1)), s.write key value) := by
  rw [serve, put, reachable_eq serving.available]

theorem Serving.write {s : Store} (serving : s.Serving) (key : String) (value : Bytes) :
    (s.write key value).Serving :=
  ⟨write_ascending serving.ascending key value, serving.available, serving.working⟩

theorem Serving.erase {s : Store} (serving : s.Serving) (e : KeyValue) : (s.erase e).Serving :=
  ⟨erase_ascending serving.ascending e, serving.available, serving.working⟩

theorem Serving.granted {s : Store} (serving : s.Serving) (name : String) : (s.granted name).Serving :=
  ⟨serving.ascending, serving.available, serving.working⟩

theorem Serving.unlock {s : Store} (serving : s.Serving) (g : Grant) : (s.unlock g).2.Serving := by
  rcases unlock_cases s g with same | same <;> rw [same]
  · exact serving
  · exact ⟨serving.ascending, serving.available, serving.working⟩

end Store

end NetPool
