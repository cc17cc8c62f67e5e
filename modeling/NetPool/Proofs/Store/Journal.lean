import NetPool.Proofs.Store.History

/-! All writes a store has ever done, as a journal kept beside it: its history may lose the oldest of
them, the journal loses none. The `n`-th write has revision `n`, and a key holds what the last write
about it has left. -/

namespace NetPool

/-- The value that a request brings. -/
def StoreRequest.value : StoreRequest → Option Bytes
  | .create _ value => some value
  | .put _ value => some value
  | _ => none

namespace Store

/-- One thing done to a store. -/
inductive Move
  | serve (r : StoreRequest)
  | compact (revision : Nat)
  | available (value : Bool)
  | failCreations (count : Nat)

def step (s : Store) : Move → Store
  | .serve r => (s.serve r).2
  | .compact revision => (s.compact revision).2
  | .available value => { s with available := value }
  | .failCreations count => { s with failingCreations := count }

def run (s : Store) (ms : List Move) : Store := ms.foldl step s

/-- The write that a request has done, by the answer to it. -/
def effect (s : Store) (r : StoreRequest) (x : Except StoreError r.Result) : Option Event :=
  (r.wrote x).bind fun key =>
    match r.value with
    | some value =>
      some { change := .put, entry := s.written key value, revision := s.revision + 1 }
    | none => (s.find? key).map fun entry =>
      { change := .delete, entry, revision := s.revision + 1 }

def effects (s : Store) : Move → List Event
  | .serve r => ((s.serve r).1.bind (s.effect r)).toList
  | _ => []

/-- The writes that a run does, in their order. -/
def journal (s : Store) : List Move → List Event
  | [] => []
  | m :: ms => s.effects m ++ (s.step m).journal ms

@[simp] theorem run_cons (s : Store) (m : Move) (ms : List Move) :
    s.run (m :: ms) = (s.step m).run ms := rfl

theorem journal_append (s : Store) (ms ms' : List Move) :
    s.journal (ms ++ ms') = s.journal ms ++ (s.run ms).journal ms' := by
  induction ms generalizing s with
  | nil => rfl
  | cons m ms ih => simp only [List.cons_append, journal, run_cons, ih, List.append_assoc]

/-- The write of `w` by a store, as the store `t` is after it. -/
inductive Writes (s : Store) : Event → Store → Prop
  | put (key : String) (value : Bytes) :
    Writes s ⟨.put, s.written key value, s.revision + 1⟩ (s.write key value)
  | delete (e : KeyValue) (found : s.find? e.key = some e) :
    Writes s ⟨.delete, e, s.revision + 1⟩ (s.erase e)

/-- What a step can do to the data: nothing, the loss of history, or one write. -/
theorem step_cases (s : Store) (m : Move) :
    (s.effects m = [] ∧ (SameData s (s.step m) ∨ ∃ n, s.step m = (s.compact n).2)) ∨
      ∃ w, s.effects m = [w] ∧ Writes s w (s.step m) := by
  cases m with
  | compact revision => exact .inl ⟨rfl, .inr ⟨revision, rfl⟩⟩
  | available value => exact .inl ⟨rfl, .inl ⟨rfl, rfl, rfl, rfl, rfl⟩⟩
  | failCreations count => exact .inl ⟨rfl, .inl ⟨rfl, rfl, rfl, rfl, rfl⟩⟩
  | serve r =>
    cases answer : (s.serve r).1 with
    | none =>
      -- A request that has to wait is one for a lock or for events.
      refine .inl ⟨by rw [effects, answer]; rfl, .inl ?_⟩
      rcases serve_cases s r with same | ⟨key, value, writes, _⟩ | ⟨e, erases, _⟩
      · exact same
      · rcases writes with ⟨rfl, _⟩ | rfl <;> cases answer
      · rcases erases with rfl | rfl <;> cases answer
    | some x =>
      have done : s.effects (.serve r) = (s.effect r x).toList := by rw [effects, answer]; rfl
      rcases serve_wrote answer with ⟨none, same⟩ | ⟨key, value, wrote, writes, h⟩ |
        ⟨e, wrote, erases, found, h⟩
      · exact .inl ⟨by rw [done, effect, none]; rfl, .inl same⟩
      · have brings : r.value = some value := by rcases writes with ⟨rfl, _⟩ | rfl <;> rfl
        refine .inr ⟨_, by rw [done, effect, wrote, Option.bind_some, brings]; rfl, ?_⟩
        rw [step, h]
        exact .put key value
      · have brings : r.value = none := by rcases erases with rfl | rfl <;> rfl
        refine .inr ⟨_, by rw [done, effect, wrote, Option.bind_some, brings, found]; rfl, ?_⟩
        rw [step, h]
        exact .delete e found

section

variable {s t : Store} {w : Event}

theorem Writes.next (h : Writes s w t) : w.revision = s.revision + 1 := by
  cases h <;> rfl

theorem Writes.revision (h : Writes s w t) : t.revision = s.revision + 1 := by
  cases h <;> rfl

theorem Writes.recorded (h : Writes s w t) :
    ∃ es, t = record { s with revision := s.revision + 1, entries := es } w := by
  cases h <;> exact ⟨_, rfl⟩

theorem Writes.ascending (h : Writes s w t) (asc : Ascending s.entries) : Ascending t.entries := by
  cases h with
  | put key value => exact write_ascending asc key value
  | delete e found => exact erase_ascending asc e

theorem Writes.find? (h : Writes s w t) (asc : Ascending s.entries) : t.find? = w.onto s.find? := by
  cases h with
  | put key value => exact find?_write_onto asc rfl
  | delete e found => exact find?_erase_onto asc rfl

theorem Writes.modified (h : Writes s w t) (put : w.change = .put) :
    w.entry.modified = w.revision := by
  cases h with
  | put key value => rfl
  | delete e found => cases put

end

/-- A step that writes nothing leaves entries and revision as they are. -/
theorem step_entries {s : Store} {m : Move} (h : SameData s (s.step m) ∨ ∃ n, s.step m = (s.compact n).2) :
    (s.step m).entries = s.entries ∧ (s.step m).revision = s.revision := by
  rcases h with same | ⟨n, h⟩
  · exact ⟨same.entries, same.revision⟩
  · rw [h]
    exact ⟨compact_entries s n, compact_revision s n⟩

theorem step_ascending {s : Store} (asc : Ascending s.entries) (m : Move) :
    Ascending (s.step m).entries := by
  rcases step_cases s m with ⟨_, h⟩ | ⟨w, _, h⟩
  · rw [(step_entries h).1]
    exact asc
  · exact h.ascending asc

theorem run_ascending {s : Store} (asc : Ascending s.entries) (ms : List Move) :
    Ascending (s.run ms).entries := by
  induction ms generalizing s with
  | nil => exact asc
  | cons m ms ih => exact ih (step_ascending asc m)

/-- The writes of a run have the revisions that the store goes through. -/
theorem journal_revisions (s : Store) (ms : List Move) :
    (s.journal ms).map (·.revision) = List.range' (s.revision + 1) (s.journal ms).length ∧
      (s.run ms).revision = s.revision + (s.journal ms).length := by
  induction ms generalizing s with
  | nil => exact ⟨rfl, rfl⟩
  | cons m ms ih =>
    obtain ⟨revisions, last⟩ := ih (s.step m)
    rw [journal, run_cons]
    rcases step_cases s m with ⟨none, h⟩ | ⟨w, one, h⟩
    · rw [(step_entries h).2] at revisions last
      rw [none]
      exact ⟨revisions, last⟩
    · rw [h.revision] at revisions last
      rw [one, List.singleton_append, List.map_cons, List.length_cons, List.range'_succ, revisions,
        h.next, last]
      exact ⟨rfl, by omega⟩

theorem mem_journal {s : Store} {ms : List Move} {w : Event} (mem : w ∈ s.journal ms) :
    s.revision < w.revision ∧ w.revision ≤ (s.run ms).revision := by
  obtain ⟨revisions, last⟩ := journal_revisions s ms
  have h := List.mem_map_of_mem (f := (·.revision)) mem
  rw [revisions, List.mem_range'_1] at h
  omega

theorem journal_modified {s : Store} {ms : List Move} {w : Event} (mem : w ∈ s.journal ms)
    (put : w.change = .put) : w.entry.modified = w.revision := by
  induction ms generalizing s with
  | nil => cases mem
  | cons m ms ih =>
    rcases List.mem_append.1 mem with now | later
    · rcases step_cases s m with ⟨none, _⟩ | ⟨w', one, h⟩
      · rw [none] at now
        cases now
      · rw [one] at now
        cases List.mem_singleton.1 now
        exact h.modified put
    · exact ih later

/-- Every write leaves its key as the event says, and every other key as it was. -/
theorem find?_run {s : Store} (asc : Ascending s.entries) (ms : List Move) :
    (s.run ms).find? = (s.journal ms).foldl (fun v w => w.onto v) s.find? := by
  induction ms generalizing s with
  | nil => rfl
  | cons m ms ih =>
    rw [run_cons, ih (step_ascending asc m), journal, List.foldl_append]
    congr 1
    rcases step_cases s m with ⟨none, h⟩ | ⟨w, one, h⟩
    · rw [none, List.foldl_nil]
      funext k
      rw [Store.find?, Store.find?, (step_entries h).1]
    · rw [one, h.find? asc]
      rfl

/-- After some writes a key is as it was, or as one of them has left it. -/
theorem replay_cases (ws : List Event) (v : View) (k : String) :
    ((∀ w ∈ ws, w.entry.key ≠ k) ∧ ws.foldl (fun v w => w.onto v) v k = v k) ∨
      ∃ w ∈ ws, w.entry.key = k ∧ ws.foldl (fun v w => w.onto v) v k = w.left := by
  induction ws generalizing v with
  | nil => exact .inl ⟨nofun, rfl⟩
  | cons w ws ih =>
    rw [List.foldl_cons]
    rcases ih (w.onto v) with ⟨untouched, same⟩ | ⟨last, mem, key, left⟩
    · by_cases here : w.entry.key = k
      · subst here
        exact .inr ⟨w, List.mem_cons_self, rfl, by rw [same, Event.onto_key]⟩
      · refine .inl ⟨?_, by rw [same, Event.onto_other (Ne.symm here)]⟩
        exact List.forall_mem_cons.2 ⟨here, untouched⟩
    · exact .inr ⟨last, List.mem_cons_of_mem _ mem, key, left⟩

theorem find?_run_cases {s : Store} (asc : Ascending s.entries) (ms : List Move) (k : String) :
    ((∀ w ∈ s.journal ms, w.entry.key ≠ k) ∧ (s.run ms).find? k = s.find? k) ∨
      ∃ w ∈ s.journal ms, w.entry.key = k ∧ (s.run ms).find? k = w.left := by
  rw [find?_run asc ms]
  exact replay_cases _ _ k

end Store

end NetPool
