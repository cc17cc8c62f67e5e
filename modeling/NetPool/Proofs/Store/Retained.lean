import NetPool.Proofs.Store.Journal

/-! What the history keeps of the writes of a run. The limit on its length and an explicit compaction
both let go of the oldest writes only and move the floor; whatever the two have done, the history is
the writes from its first revision on, and a watch that would miss one of the others is refused. -/

namespace NetPool.Store

/-- Of consecutive events, those from a revision on are the last ones. -/
theorem filter_eq_drop {es : List Event} {a n : Nat}
    (revisions : es.map (·.revision) = List.range' a n) (k : Nat) :
    es.filter (a + k ≤ ·.revision) = es.drop k := by
  induction es generalizing a n k with
  | nil => rw [List.drop_nil, List.filter_nil]
  | cons e es ih =>
    cases n with
    | zero => cases revisions
    | succ n =>
      rw [List.map_cons, List.range'_succ, List.cons.injEq] at revisions
      cases k with
      | zero =>
        refine List.filter_eq_self.2 (List.forall_mem_cons.2 ⟨?_, fun x mem => ?_⟩)
        · exact decide_eq_true (Nat.le_of_eq revisions.1.symm)
        · have later := List.mem_map_of_mem (f := (·.revision)) mem
          rw [revisions.2, List.mem_range'_1] at later
          exact decide_eq_true (by omega)
      | succ k =>
        have rest := ih revisions.2 k
        rw [Nat.add_right_comm, Nat.add_assoc] at rest
        have old : ¬ a + (k + 1) ≤ e.revision := by omega
        rw [List.filter_cons, decide_eq_false old, List.drop_succ_cons, ← rest]
        rfl

theorem filter_filter_le (es : List Event) {a b : Nat} (le : a ≤ b) :
    (es.filter (a ≤ ·.revision)).filter (b ≤ ·.revision) = es.filter (b ≤ ·.revision) := by
  rw [List.filter_filter]
  refine List.filter_congr fun e _ => ?_
  by_cases late : b ≤ e.revision
  · rw [decide_eq_true late, decide_eq_true (Nat.le_trans le late)]
    rfl
  · rw [decide_eq_false late, Bool.false_and]

theorem record_length (s : Store) (e : Event) : (s.record e).history.length ≤ s.historyLimit := by
  change ((s.history ++ [e]).drop _).length ≤ _
  rw [List.length_drop]
  omega

/-- What is left of the writes `ws` in a store whose history was to hold `limit` of them. -/
structure Retains (limit : Nat) (ws : List Event) (s : Store) : Prop where
  limited : s.historyLimit = max limit 1
  floor_le : s.floor ≤ s.revision
  revisions : ws.map (·.revision) = List.range' 1 s.revision
  history : s.history = ws.filter (s.first ≤ ·.revision)
  short : s.history.length ≤ max limit 1

theorem empty_retains (limit : Nat) : Retains limit [] (empty limit) :=
  ⟨rfl, Nat.le_refl 0, rfl, rfl, Nat.zero_le _⟩

section

variable {limit : Nat} {ws : List Event} {s : Store}

theorem Retains.same (r : Retains limit ws s) {t : Store} (same : SameData s t) :
    Retains limit ws t where
  limited := same.historyLimit.trans r.limited
  floor_le := by rw [same.floor, same.revision]; exact r.floor_le
  revisions := by rw [same.revision]; exact r.revisions
  history := by rw [first, same.floor, same.history]; exact r.history
  short := by rw [same.history]; exact r.short

theorem Retains.first_le (r : Retains limit ws s) : s.first ≤ s.revision + 1 :=
  Nat.max_le.2 ⟨Nat.le_succ_of_le r.floor_le, by omega⟩

/-- The history has one event for each revision from its first one on. -/
theorem Retains.history_revisions (r : Retains limit ws s) :
    s.history.map (·.revision) = List.range' s.first (s.revision + 1 - s.first) := by
  have one : 1 ≤ s.first := Nat.le_max_right _ _
  have kept : ws.filter (s.first ≤ ·.revision) =
      ws.filter ((fun n => decide (s.first ≤ n)) ∘ (·.revision)) := rfl
  rw [r.history, kept, ← List.filter_map, r.revisions, filter_le_range', Nat.max_eq_right one,
    Nat.add_comm]

theorem Retains.record (r : Retains limit ws s) {w : Event} {t : Store} (h : Writes s w t) :
    Retains limit (ws ++ [w]) t ∧ s.floor ≤ t.floor := by
  have low := r.first_le
  obtain ⟨es, recorded⟩ := h.recorded
  obtain ⟨k, bound, first, dropped, whole, history, revisions⟩ :=
    record_history (s := { s with revision := s.revision + 1, entries := es }) (e := w)
      (n := s.revision + 1 - s.first) (by rw [r.limited]; exact Nat.le_max_right _ _)
      r.history_revisions (by rw [h.next]; show _ = s.first + _; omega)
  rw [← recorded] at first dropped whole history revisions
  replace first : t.first = s.first + k := first
  have floor : s.floor ≤ t.floor := by
    rcases dropped with zero | past
    · exact Nat.le_of_eq (whole zero).symm
    · have le : s.floor ≤ s.first := Nat.le_max_left _ _
      rw [past]
      exact Nat.le_add_right_of_le le
  refine ⟨⟨?_, ?_, ?_, ?_, ?_⟩, floor⟩
  · rw [recorded]
    exact r.limited
  · rw [h.revision]
    rcases dropped with zero | past
    · rw [whole zero]
      exact Nat.le_succ_of_le r.floor_le
    · rw [past]
      change s.first + k ≤ s.revision + 1
      omega
  · rw [List.map_append, r.revisions, h.revision, List.range'_1_concat, List.map_singleton, h.next,
      Nat.add_comm 1]
  · -- Both the old history and the new one are filters of all writes by revision.
    have next : s.first ≤ w.revision := h.next.symm ▸ low
    have all : s.history ++ [w] = (ws ++ [w]).filter (s.first ≤ ·.revision) := by
      rw [List.filter_append, ← r.history, List.filter_cons, decide_eq_true next]
      rfl
    have consecutive : (s.history ++ [w]).map (·.revision) =
        List.range' s.first (s.revision + 1 - s.first + 1) := by
      rw [List.map_append, r.history_revisions, List.range'_1_concat, List.map_singleton, h.next,
        Nat.add_sub_cancel' low]
    rw [history, first]
    change (s.history ++ [w]).drop k = _
    rw [← filter_eq_drop consecutive k, all, filter_filter_le _ (Nat.le_add_right _ _)]
  · rw [recorded, ← r.limited]
    exact record_length _ w

theorem Retains.compact (r : Retains limit ws s) (n : Nat) :
    Retains limit ws (s.compact n).2 ∧ s.floor ≤ (s.compact n).2.floor := by
  unfold Store.compact
  dsimp only
  split
  · exact ⟨r, Nat.le_refl _⟩
  · rename_i above
    refine ⟨⟨r.limited, Nat.min_le_right _ _, r.revisions, ?_, ?_⟩, Nat.le_of_not_le above⟩
    · change s.history.filter _ = ws.filter (max (min n s.revision) 1 ≤ ·.revision)
      have start : max (min n s.revision) 1 = min n s.revision := by omega
      have le : s.first ≤ min n s.revision := Nat.max_le.2 ⟨by omega, by omega⟩
      rw [r.history, filter_filter_le _ le, start]
    · exact Nat.le_trans (List.length_filter_le _ _) r.short

theorem Retains.step (r : Retains limit ws s) (m : Move) :
    Retains limit (ws ++ s.effects m) (s.step m) ∧ s.floor ≤ (s.step m).floor := by
  rcases step_cases s m with ⟨none, same | ⟨n, h⟩⟩ | ⟨w, one, h⟩
  · rw [none, List.append_nil]
    exact ⟨r.same same, Nat.le_of_eq same.floor.symm⟩
  · rw [none, List.append_nil, h]
    exact r.compact n
  · rw [one]
    exact r.record h

theorem Retains.run (r : Retains limit ws s) (ms : List Move) :
    Retains limit (ws ++ s.journal ms) (s.run ms) ∧ s.floor ≤ (s.run ms).floor := by
  induction ms generalizing s ws with
  | nil => exact ⟨by rw [journal, List.append_nil]; exact r, Nat.le_refl _⟩
  | cons m ms ih =>
    obtain ⟨now, up⟩ := r.step m
    obtain ⟨later, rest⟩ := ih now
    rw [journal, ← List.append_assoc]
    exact ⟨later, Nat.le_trans up rest⟩

theorem Retains.mem_history (r : Retains limit ws s) {w : Event} :
    w ∈ s.history ↔ w ∈ ws ∧ s.first ≤ w.revision := by
  rw [r.history, List.mem_filter, decide_eq_true_iff]

/-- A write after a revision is gone exactly if the floor is past the next revision. -/
theorem Retains.lost_iff (r : Retains limit ws s) (after : Nat) :
    (∃ w ∈ ws, after < w.revision ∧ w ∉ s.history) ↔ after + 1 < s.floor := by
  constructor
  · rintro ⟨w, mem, later, gone⟩
    have early : w.revision < s.first :=
      Nat.lt_of_not_le fun kept => gone (r.mem_history.2 ⟨mem, kept⟩)
    have positive := List.mem_map_of_mem (f := (·.revision)) mem
    rw [r.revisions, List.mem_range'_1] at positive
    unfold first at early
    omega
  · intro below
    have within : after + 1 ∈ ws.map (·.revision) := by
      have le := r.floor_le
      rw [r.revisions, List.mem_range'_1]
      omega
    obtain ⟨w, mem, here⟩ := List.mem_map.1 within
    refine ⟨w, mem, by omega, fun kept => ?_⟩
    have first := (r.mem_history.1 kept).2
    have le : s.floor ≤ s.first := Nat.le_max_left _ _
    omega

/-- Above the floor the events in scope are all the writes in scope. -/
theorem Retains.events (r : Retains limit ws s) {after : Nat} (reach : ¬ after + 1 < s.floor)
    (scope : Scope) :
    (s.history.filter fun e => after < e.revision && scope.covers e.entry.key) =
      ws.filter fun e => after < e.revision && scope.covers e.entry.key := by
  rw [r.history, List.filter_filter]
  refine List.filter_congr fun e _ => ?_
  by_cases later : after < e.revision
  · have kept : s.first ≤ e.revision := Nat.max_le.2 ⟨by omega, by omega⟩
    rw [decide_eq_true kept, Bool.and_true]
  · rw [decide_eq_false later, Bool.false_and, Bool.false_and]

end

theorem watch_eq (s : Store) (scope : Scope) (after : Nat) :
    s.watch scope after =
      let found := s.history.filter fun e => after < e.revision && scope.covers e.entry.key
      if s.available = false then .error (.unavailable "memory store marked unavailable")
      else if after + 1 < s.floor then .error (.compacted after s.floor)
      else .ok (if found.isEmpty then none else some { events := found, revision := s.revision }) := by
  unfold watch reachable
  cases s.available with
  | false => rfl
  | true =>
    by_cases below : after + 1 < s.floor
    · simp only [below, if_true]
      rfl
    · simp only [below, if_false]
      rfl

/-- In every state that a store can come to, the history holds the writes from its first revision on,
one for each revision, and no more of them than its limit; the floor only rises. A watch is refused for
compaction exactly if some write after the given revision is gone, and otherwise its events are all the
writes in scope after that revision, in order; with none of them yet it waits. -/
theorem watch_misses_nothing (limit : Nat) (ms : List Move) :
    let s := (empty limit).run ms
    let writes := (empty limit).journal ms
    writes.map (·.revision) = List.range' 1 s.revision ∧
      s.history = writes.filter (max s.floor 1 ≤ ·.revision) ∧
      s.history.map (·.revision) =
        List.range' (max s.floor 1) (s.revision + 1 - max s.floor 1) ∧
      s.history.length ≤ max limit 1 ∧
      (∀ more, s.floor ≤ (s.run more).floor) ∧
      ∀ scope after, s.watch scope after =
        let found := writes.filter fun w => after < w.revision && scope.covers w.entry.key
        if s.available = false then .error (.unavailable "memory store marked unavailable")
        else if ∃ w ∈ writes, after < w.revision ∧ w ∉ s.history then
          .error (.compacted after s.floor)
        else
          .ok (if found.isEmpty then none else some { events := found, revision := s.revision }) := by
  intro s writes
  have r : Retains limit writes s := ((empty_retains limit).run ms).1
  refine ⟨r.revisions, r.history, r.history_revisions, r.short, fun more => (r.run more).2, ?_⟩
  intro scope after
  have lost := r.lost_iff after
  rw [watch_eq]
  by_cases below : after + 1 < s.floor
  · simp only [below, lost.2 below, if_true]
  · simp only [below, mt lost.1 below, if_false, r.events below scope]

/-- Of four writes the limit has dropped one, a compaction another two. -/
example :
    let s := (empty 3).run [.serve (.put "k" []), .serve (.put "k" []), .serve (.delete "k"),
      .serve (.put "k" []), .compact 4]
    (s.floor, s.history.map (·.revision)) = (4, [4]) ∧
      s.watch (.key "k") 2 = .error (.compacted 2 4) := ⟨rfl, rfl⟩

end NetPool.Store
