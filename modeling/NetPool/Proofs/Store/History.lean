import NetPool.Proofs.Store.Change

/-! The history of a store against what the store held. From its floor on the history has one event
for each revision, and each event leads from what the store held before it to what it held after. So a
view that was right at some revision is right again once the events since then have been applied. -/

namespace NetPool

/-- What somebody knows of the keys of a store. -/
abbrev View := String → Option KeyValue

def Event.onto (e : Event) (v : View) : View := fun k =>
  if k = e.entry.key then
    match e.change with
    | .put => some e.entry
    | .delete => none
  else v k

/-- What an event leaves under its key. -/
def Event.left (e : Event) : Option KeyValue :=
  match e.change with
  | .put => some e.entry
  | .delete => none

theorem Event.onto_key (e : Event) (v : View) : e.onto v e.entry.key = e.left := if_pos rfl

theorem Event.onto_other {e : Event} {k : String} (ne : k ≠ e.entry.key) (v : View) :
    e.onto v k = v k := if_neg ne

/-- A view cut down to the keys in scope. -/
def Scope.part (scope : Scope) (v : View) : View := fun k => if scope.covers k then v k else none

theorem part_onto {scope : Scope} {e : Event} (covered : scope.covers e.entry.key = true) (v : View) :
    scope.part (e.onto v) = e.onto (scope.part v) := by
  funext k
  unfold Scope.part Event.onto
  by_cases same : k = e.entry.key
  · rw [if_pos same, if_pos same, if_pos (same ▸ covered)]
  · rw [if_neg same, if_neg same]

theorem part_onto_outside {scope : Scope} {e : Event}
    (outside : ¬ scope.covers e.entry.key = true) (v : View) :
    scope.part (e.onto v) = scope.part v := by
  funext k
  unfold Scope.part Event.onto
  by_cases same : k = e.entry.key
  · rw [if_neg (same ▸ outside), if_neg (same ▸ outside)]
  · rw [if_neg same]

namespace Store

/-- Anything that can happen to a store: a request it serves, the loss of its history below a
revision, and what is done to it by hand. -/
inductive Moves : Store → Store → Prop
  | serve (s : Store) (r : StoreRequest) : Moves s (s.serve r).2
  | compact (s : Store) (revision : Nat) : Moves s (s.compact revision).2
  | available (s : Store) (value : Bool) : Moves s { s with available := value }
  | failCreations (s : Store) (count : Nat) : Moves s { s with failingCreations := count }

/-- The first revision that the history may still have. -/
def first (s : Store) : Nat := max s.floor 1

/-- `past` tells what the store held at each revision up to now. -/
structure Chronicle (past : Nat → View) (s : Store) : Prop where
  ascending : Ascending s.entries
  kept : 1 ≤ s.historyLimit
  floor_le : s.floor ≤ s.revision
  revisions : s.history.map (·.revision) = List.range' s.first (s.revision + 1 - s.first)
  now : past s.revision = s.find?
  onto : ∀ e ∈ s.history, past e.revision = e.onto (past (e.revision - 1))

theorem empty_chronicle (limit : Nat) : Chronicle (fun _ _ => none) (empty limit) where
  ascending := .nil
  kept := Nat.le_max_right limit 1
  floor_le := Nat.le_refl 0
  revisions := rfl
  now := rfl
  onto := fun _ h => nomatch h

theorem Chronicle.same {past : Nat → View} {s t : Store} (c : Chronicle past s)
    (same : SameData s t) : Chronicle past t where
  ascending := same.entries ▸ c.ascending
  kept := same.historyLimit ▸ c.kept
  floor_le := by rw [same.floor, same.revision]; exact c.floor_le
  revisions := by
    rw [first, same.history, same.revision, same.floor]
    exact c.revisions
  now := by
    rw [same.revision, c.now]
    funext k
    rw [find?, find?, same.entries]
  onto := by rw [same.history]; exact c.onto

/-- A write adds its revision at the end of the history; what the limit takes away at the other end
the floor leaves behind. -/
theorem record_history {s : Store} {e : Event} {n : Nat} (kept : 1 ≤ s.historyLimit)
    (revisions : s.history.map (·.revision) = List.range' s.first n)
    (next : e.revision = s.first + n) :
    ∃ k ≤ n, (s.record e).first = s.first + k ∧ (k = 0 ∨ (s.record e).floor = s.first + k) ∧
      (k = 0 → (s.record e).floor = s.floor) ∧
      (s.record e).history = (s.history ++ [e]).drop k ∧
      (s.record e).history.map (·.revision) = List.range' (s.first + k) (n + 1 - k) := by
  have all : (s.history ++ [e]).map (·.revision) = List.range' s.first (n + 1) := by
    rw [List.map_append, revisions, List.range'_1_concat, List.map_singleton, next]
  have length : (s.history ++ [e]).length = n + 1 := by
    have h := congrArg List.length all
    rwa [List.length_map, List.length_range'] at h
  let k := (s.history ++ [e]).length - s.historyLimit
  have bound : k ≤ n := by omega
  have oldest : ((s.history ++ [e]).take k).getLast?.map (·.revision) =
      if k = 0 then none else some (s.first + k - 1) := by
    rw [← List.getLast?_map, List.map_take, all, List.take_range'_of_length_ge (by omega),
      List.getLast?_range']
  have floor : (s.record e).floor = if k = 0 then s.floor else s.first + k := by
    simp only [Store.record]
    by_cases zero : k = 0
    · rw [if_pos zero]
      have nothing : (s.history ++ [e]).take ((s.history ++ [e]).length - s.historyLimit) = [] := by
        change (s.history ++ [e]).take k = []
        rw [zero, List.take_zero]
      rw [nothing]
      rfl
    · rw [if_neg zero] at oldest ⊢
      obtain ⟨a, last, rev⟩ := Option.map_eq_some_iff.1 oldest
      rw [last]
      change a.revision + 1 = s.first + k
      omega
  have one : 1 ≤ s.first := Nat.le_max_right _ _
  refine ⟨k, bound, ?_, ?_, ?_, rfl, ?_⟩
  · rw [first, floor]
    split
    · rename_i zero; rw [zero]; rfl
    · omega
  · by_cases zero : k = 0
    · exact .inl zero
    · exact .inr (by rw [floor, if_neg zero])
  · intro zero; rw [floor, if_pos zero]
  · change ((s.history ++ [e]).drop k).map (·.revision) = _
    rw [List.map_drop, all, List.drop_range', Nat.mul_one]

/-- What is known after a write, or after a removal: `e` is the event, `es` what it leaves. -/
theorem Chronicle.record {past : Nat → View} {s : Store} (c : Chronicle past s)
    {es : List KeyValue} {e : Event} (asc : Ascending es) (next : e.revision = s.revision + 1)
    (held : ∀ t : Store, t.entries = es → t.find? = e.onto s.find?) :
    Chronicle (fun n => if n = s.revision + 1 then e.onto s.find? else past n)
      (Store.record { s with revision := s.revision + 1, entries := es } e) := by
  have one : 1 ≤ s.first := Nat.le_max_right _ _
  have low : s.first ≤ s.revision + 1 := Nat.max_le.2 ⟨by have := c.floor_le; omega, by omega⟩
  obtain ⟨k, bound, first, dropped, whole, history, revisions⟩ :=
    record_history (s := { s with revision := s.revision + 1, entries := es }) (e := e)
      (n := s.revision + 1 - s.first) c.kept c.revisions (by rw [next]; show _ = s.first + _; omega)
  replace first : (Store.record { s with revision := s.revision + 1, entries := es } e).first =
      s.first + k := first
  refine ⟨asc, c.kept, ?_, ?_, ?_, ?_⟩
  · change (Store.record _ e).floor ≤ s.revision + 1
    rcases dropped with zero | floor
    · rw [whole zero]; exact Nat.le_succ_of_le c.floor_le
    · rw [floor]; show s.first + k ≤ s.revision + 1; omega
  · rw [first, revisions]
    change List.range' (s.first + k) _ = List.range' (s.first + k) (s.revision + 1 + 1 - (s.first + k))
    congr 1
    omega
  · change (if s.revision + 1 = s.revision + 1 then e.onto s.find? else _) = _
    rw [if_pos rfl]
    exact (held _ rfl).symm
  · intro a ha
    rw [history] at ha
    rcases List.mem_append.1 (List.mem_of_mem_drop ha) with old | new
    · have low : a.revision < s.revision + 1 := by
        have h := List.mem_map_of_mem (f := (·.revision)) old
        rw [c.revisions, List.mem_range'_1] at h
        omega
      rw [if_neg (by omega), if_neg (by omega)]
      exact c.onto a old
    · rw [List.mem_singleton.1 new, next, if_pos rfl, if_neg (by omega), Nat.add_sub_cancel, c.now]

theorem find?_write_onto {s t : Store} (asc : Ascending s.entries) {key : String} {value : Bytes}
    (same : t.entries = place (s.written key value) s.entries) :
    t.find? = Event.onto ⟨.put, s.written key value, s.revision + 1⟩ s.find? := by
  funext k
  have h : t.find? k = (s.write key value).find? k := by rw [find?, find?, same]; rfl
  rw [h, find?_write asc]
  rfl

theorem find?_erase_onto {s t : Store} (asc : Ascending s.entries) {e : KeyValue}
    (same : t.entries = s.entries.filter (·.key ≠ e.key)) :
    t.find? = Event.onto ⟨.delete, e, s.revision + 1⟩ s.find? := by
  funext k
  have h : t.find? k = (s.erase e).find? k := by rw [find?, find?, same]; rfl
  rw [h, find?_erase asc]
  rfl

theorem filter_le_range' (a b n : Nat) : (List.range' a n).filter (b ≤ ·) =
    List.range' (max a b) (a + n - max a b) := by
  induction n generalizing a with
  | zero =>
    have none : a + 0 - max a b = 0 := by omega
    rw [none]; rfl
  | succ n ih =>
    rw [List.range'_succ, List.filter_cons, ih]
    split
    · rename_i le
      have le := of_decide_eq_true le
      have more : a + (n + 1) - max a b = (a + 1 + n - max (a + 1) b) + 1 := by omega
      have here : max a b = a := by omega
      have later : max (a + 1) b = a + 1 := by omega
      rw [more, List.range'_succ, here, later]
    · rename_i lt
      have lt : ¬ b ≤ a := fun h => lt (decide_eq_true h)
      have here : max (a + 1) b = max a b := by omega
      rw [here]
      congr 1
      omega

theorem Chronicle.compact {past : Nat → View} {s : Store} (c : Chronicle past s) (revision : Nat) :
    Chronicle past (s.compact revision).2 := by
  unfold Store.compact
  dsimp only
  split
  · exact c
  · rename_i above
    have one : 1 ≤ s.first := Nat.le_max_right _ _
    have le : s.floor ≤ s.first := Nat.le_max_left _ _
    refine ⟨c.ascending, c.kept, Nat.min_le_right _ _, ?_, c.now, ?_⟩
    · rw [show (fun e : Event => decide (min revision s.revision ≤ e.revision)) =
        (fun n => decide (min revision s.revision ≤ n)) ∘ (·.revision) from rfl,
        ← List.filter_map, c.revisions, filter_le_range']
      change _ = List.range' (max (min revision s.revision) 1) _
      have start : max s.first (min revision s.revision) = max (min revision s.revision) 1 := by
        unfold Store.first at *
        omega
      rw [start]
      change _ = List.range' _ (s.revision + 1 - max (min revision s.revision) 1)
      congr 1
      unfold Store.first at *
      omega
    · intro e he
      exact c.onto e (List.mem_filter.1 he).1

/-- Whatever happens to a store, what it held at earlier revisions stays known. -/
theorem Chronicle.move {past : Nat → View} {s t : Store} (c : Chronicle past s) (m : Moves s t) :
    s.revision ≤ t.revision ∧
      ∃ later, Chronicle later t ∧ ∀ n ≤ s.revision, later n = past n := by
  cases m with
  | serve r =>
    rcases serve_cases s r with same | ⟨key, value, _, h⟩ | ⟨e, _, found, h⟩
    · exact ⟨Nat.le_of_eq same.revision.symm, past, c.same same, fun _ _ => rfl⟩
    · rw [h, write_eq]
      refine ⟨Nat.le_succ _, _, c.record (place_ascending c.ascending _) rfl
        (fun t same => find?_write_onto c.ascending same), fun n le => if_neg (by omega)⟩
    · rw [h, erase_eq]
      refine ⟨Nat.le_succ _, _, c.record (c.ascending.filter _) rfl
        (fun t same => find?_erase_onto c.ascending same), fun n le => if_neg (by omega)⟩
  | compact revision =>
    exact ⟨Nat.le_of_eq (compact_revision s revision).symm, past, c.compact revision, fun _ _ => rfl⟩
  | available value => exact ⟨Nat.le_refl _, past, c.same ⟨rfl, rfl, rfl, rfl, rfl⟩, fun _ _ => rfl⟩
  | failCreations count =>
    exact ⟨Nat.le_refl _, past, c.same ⟨rfl, rfl, rfl, rfl, rfl⟩, fun _ _ => rfl⟩

/-- Events of consecutive revisions, applied from some revision on. -/
theorem replay {past : Nat → View} {scope : Scope} {es : List Event} {a cursor last : Nat}
    (revisions : es.map (·.revision) = List.range' a es.length)
    (onto : ∀ e ∈ es, past e.revision = e.onto (past (e.revision - 1)))
    (reach : a ≤ cursor + 1) (stop : last + 1 = a + es.length) (le : cursor ≤ last) :
    (es.filter fun e => cursor < e.revision && scope.covers e.entry.key).foldl
      (fun v e => e.onto v) (scope.part (past cursor)) = scope.part (past last) := by
  induction es generalizing a cursor with
  | nil =>
    have same : cursor = last := by simp only [List.length_nil] at stop; omega
    rw [same]; rfl
  | cons e es ih =>
    rw [List.map_cons, List.length_cons, List.range'_succ, List.cons.injEq] at revisions
    rw [List.length_cons] at stop
    have rest := fun x h => onto x (List.mem_cons_of_mem e h)
    by_cases old : a ≤ cursor
    · have skip : ¬ (decide (cursor < e.revision) && scope.covers e.entry.key) = true := by
        rw [Bool.and_eq_true, decide_eq_true_iff, revisions.1]; omega
      rw [List.filter_cons, if_neg skip]
      exact ih revisions.2 rest (by omega) (by omega) le
    · have here : a = cursor + 1 := by omega
      have step : past (cursor + 1) = e.onto (past cursor) := by
        have h := onto e List.mem_cons_self
        rwa [revisions.1, here, Nat.add_sub_cancel] at h
      have shrink : es.filter (fun x => cursor < x.revision && scope.covers x.entry.key) =
          es.filter (fun x => cursor + 1 < x.revision && scope.covers x.entry.key) := by
        apply List.filter_congr
        intro x hx
        have h := List.mem_map_of_mem (f := (·.revision)) hx
        rw [revisions.2, List.mem_range'_1] at h
        have after : cursor + 1 < x.revision := by omega
        rw [decide_eq_true after, decide_eq_true (Nat.lt_of_succ_lt after)]
      have done := @ih (a + 1) (cursor + 1) revisions.2 rest (by omega) (by omega) (by omega)
      have now : decide (cursor < e.revision) = true := decide_eq_true (by rw [revisions.1]; omega)
      rw [List.filter_cons, now, Bool.true_and]
      split
      · rename_i covered
        rw [List.foldl_cons, shrink, ← part_onto covered, ← step]
        exact done
      · rename_i outside
        rw [shrink, ← part_onto_outside outside, ← step]
        exact done

theorem Chronicle.event_at {past : Nat → View} {s : Store} (c : Chronicle past s) {n : Nat}
    (low : s.first ≤ n) (high : n ≤ s.revision) : ∃ e ∈ s.history, e.revision = n := by
  have mem : n ∈ s.history.map (·.revision) := by
    rw [c.revisions, List.mem_range'_1]
    omega
  exact List.mem_map.1 mem

/-- Between two revisions a key stays as it was, unless the history has an event for it. -/
theorem Chronicle.since {past : Nat → View} {s : Store} (c : Chronicle past s) {key : String}
    {a n : Nat} (floor : ¬ a + 1 < s.floor) (le : a ≤ n) (reach : n ≤ s.revision) :
    past n key = past a key ∨ ∃ e ∈ s.history, a < e.revision ∧ e.entry.key = key ∧
      past n key = e.left := by
  induction le with
  | refl => exact .inl rfl
  | @step n le ih =>
    change a ≤ n at le
    have low : s.first ≤ n + 1 := Nat.max_le.2 ⟨by omega, by omega⟩
    obtain ⟨e, mem, revision⟩ := c.event_at low reach
    have onto := c.onto e mem
    rw [revision, Nat.add_sub_cancel] at onto
    by_cases here : e.entry.key = key
    · subst here
      exact .inr ⟨e, mem, by omega, rfl, by rw [onto, Event.onto_key]⟩
    · rw [onto, Event.onto_other (Ne.symm here)]
      exact ih (by omega)

theorem watch_batch {s : Store} {scope : Scope} {after : Nat} {batch : Batch}
    (watched : s.watch scope after = .ok (some batch)) : ¬ after + 1 < s.floor ∧
      batch = { events := s.history.filter fun e => after < e.revision && scope.covers e.entry.key
                revision := s.revision } := by
  unfold watch at watched
  cases h : s.reachable with
  | error e => rw [h] at watched; cases watched
  | ok u =>
    rw [h] at watched
    by_cases below : after + 1 < s.floor
    · simp [below, bind, Except.bind, throw, throwThe, MonadExceptOf.throw] at watched
    · simp only [bind, Except.bind, below, if_false, pure, Except.pure] at watched
      split at watched
      · cases watched
      · exact ⟨below, (Option.some.inj (Except.ok.inj watched)).symm⟩

theorem watch_served {s : Store} {scope : Scope} {after : Nat} {batch : Batch}
    (served : (s.serve (.watch scope after)).1 = some (.ok batch)) :
    s.watch scope after = .ok (some batch) := by
  simp only [serve] at served
  split at served
  · cases served
  · cases served
  · rename_i found watched
    rw [watched, Except.ok.inj (Option.some.inj served)]

/-- The events of a scope since a revision, as far as the history reaches back, bring a view of that
revision up to date. -/
theorem Chronicle.catch_up {past : Nat → View} {s : Store} (c : Chronicle past s) (scope : Scope)
    {cursor : Nat} (floor : ¬ cursor + 1 < s.floor) (le : cursor ≤ s.revision) :
    (s.history.filter fun e => cursor < e.revision && scope.covers e.entry.key).foldl
      (fun v e => e.onto v) (scope.part (past cursor)) = scope.part s.find? := by
  have low : s.first ≤ cursor + 1 := Nat.max_le.2 ⟨by omega, by omega⟩
  have length : s.history.length = s.revision + 1 - s.first := by
    have h := congrArg List.length c.revisions
    rwa [List.length_map, List.length_range'] at h
  rw [← c.now]
  exact replay (by rw [length]; exact c.revisions) c.onto low (by omega) le

end Store

end NetPool
