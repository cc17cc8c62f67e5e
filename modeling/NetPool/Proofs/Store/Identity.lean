import NetPool.Proofs.Store.Journal

/-! Revisions identify writes. A key that has the revision it was read with has not been touched in
between, deleted and written anew or not, so a deletion that asks for this revision hits the record that
was read and no other. -/

namespace NetPool.Store

theorem event_unique {ws : List Event} {a n : Nat} (revisions : ws.map (·.revision) = List.range' a n)
    {w w' : Event} (mem : w ∈ ws) (mem' : w' ∈ ws) (same : w.revision = w'.revision) : w = w' := by
  have rising : (ws.map (·.revision)).Pairwise (· < ·) := revisions ▸ List.pairwise_lt_range'
  rw [List.pairwise_map] at rising
  induction ws generalizing a n with
  | nil => cases mem
  | cons first rest ih =>
    obtain ⟨above, rising⟩ := List.pairwise_cons.1 rising
    rcases List.mem_cons.1 mem with rfl | old <;> rcases List.mem_cons.1 mem' with rfl | old'
    · rfl
    · exact absurd same (Nat.ne_of_lt (above w' old'))
    · exact absurd same.symm (Nat.ne_of_lt (above w old))
    · cases n with
      | zero => cases revisions
      | succ n =>
        rw [List.map_cons, List.range'_succ, List.cons.injEq] at revisions
        exact ih revisions.2 old old' rising

/-- Some write about the key has the revision. -/
def Wrote (ws : List Event) (key : String) (revision : Nat) : Prop :=
  ∃ w ∈ ws, w.revision = revision ∧ w.entry.key = key

theorem Wrote.append {ws : List Event} {key : String} {revision : Nat} (h : Wrote ws key revision)
    (more : List Event) : Wrote (ws ++ more) key revision := by
  obtain ⟨w, mem, is⟩ := h
  exact ⟨w, List.mem_append_left _ mem, is⟩

/-- Both revisions of an entry are those of writes about its key, up to a revision. -/
structure Stamped (ws : List Event) (last : Nat) (e : KeyValue) : Prop where
  created_le : e.created ≤ e.modified
  modified_le : e.modified ≤ last
  created : Wrote ws e.key e.created
  modified : Wrote ws e.key e.modified

theorem Stamped.later {ws : List Event} {last last' : Nat} {e : KeyValue} (d : Stamped ws last e)
    (le : last ≤ last') (more : List Event) : Stamped (ws ++ more) last' e :=
  ⟨d.created_le, Nat.le_trans d.modified_le le, d.created.append more, d.modified.append more⟩

theorem written_stamped {ws : List Event} {s : Store}
    (stamped : ∀ e ∈ s.entries, Stamped ws s.revision e) (key : String) (value : Bytes) :
    Stamped (ws ++ [⟨.put, s.written key value, s.revision + 1⟩]) (s.revision + 1)
      (s.written key value) := by
  have now : Wrote (ws ++ [⟨.put, s.written key value, s.revision + 1⟩]) key (s.revision + 1) :=
    ⟨_, List.mem_append_right _ (List.mem_singleton_self _), rfl, rfl⟩
  cases found : s.find? key with
  | none =>
    have born : (s.written key value).created = s.revision + 1 := by rw [written, found]; rfl
    refine ⟨Nat.le_of_eq born, Nat.le_refl _, ?_, now⟩
    rw [born]
    exact now
  | some old =>
    -- An entry that is written over keeps the revision at which its key came to be.
    have kept : (s.written key value).created = old.created := by rw [written, found]; rfl
    have d := stamped old (List.mem_of_find?_eq_some found)
    have before := d.created.append [⟨.put, s.written key value, s.revision + 1⟩]
    rw [find?_key found, ← kept] at before
    refine ⟨?_, Nat.le_refl _, before, now⟩
    rw [kept]
    exact Nat.le_succ_of_le (Nat.le_trans d.created_le d.modified_le)

theorem step_stamped {ws : List Event} {s : Store} (asc : Ascending s.entries)
    (stamped : ∀ e ∈ s.entries, Stamped ws s.revision e) (m : Move) :
    ∀ e ∈ (s.step m).entries, Stamped (ws ++ s.effects m) (s.step m).revision e := by
  intro e mem
  rcases step_cases s m with ⟨none, h⟩ | ⟨w, one, h⟩
  · obtain ⟨entries, revision⟩ := step_entries h
    rw [entries] at mem
    rw [none, revision, List.append_nil]
    exact stamped e mem
  · rw [one, h.revision]
    generalize s.step m = t at mem h
    cases h with
    | put key value =>
      rcases (mem_write asc).1 mem with rfl | ⟨old, _⟩
      · exact written_stamped stamped key value
      · exact (stamped e old).later (Nat.le_succ _) _
    | delete gone found => exact (stamped e (mem_erase.1 mem).1).later (Nat.le_succ _) _

theorem run_stamped {ws : List Event} {s : Store} (asc : Ascending s.entries)
    (stamped : ∀ e ∈ s.entries, Stamped ws s.revision e) (ms : List Move) :
    ∀ e ∈ (s.run ms).entries, Stamped (ws ++ s.journal ms) (s.run ms).revision e := by
  induction ms generalizing s ws with
  | nil => rwa [journal, List.append_nil]
  | cons m ms ih =>
    rw [journal, ← List.append_assoc]
    exact ih (step_ascending asc m) (step_stamped asc stamped m)

/-- One revision belongs to one key. -/
theorem Wrote.key_unique {ws : List Event} {a n : Nat}
    (revisions : ws.map (·.revision) = List.range' a n) {k k' : String} {revision : Nat}
    (h : Wrote ws k revision) (h' : Wrote ws k' revision) : k = k' := by
  obtain ⟨w, mem, here, rfl⟩ := h
  obtain ⟨w', mem', here', rfl⟩ := h'
  rw [event_unique revisions mem mem' (here.trans here'.symm)]

/-- A key that was written since then has a later revision than it was read with. -/
theorem untouched {s : Store} (asc : Ascending s.entries) {ms : List Move} {k : String} {d e : KeyValue}
    (modified_le : d.modified ≤ s.revision) (now : (s.run ms).find? k = some e)
    (same : d.modified = e.modified) :
    (∀ w ∈ s.journal ms, w.entry.key ≠ k) ∧ (s.run ms).find? k = s.find? k := by
  rcases find?_run_cases asc ms k with h | ⟨w, mem, key, left⟩
  · exact h
  · exfalso
    rw [now, Event.left] at left
    cases change : w.change with
    | delete =>
      rw [change] at left
      cases left
    | put =>
      rw [change] at left
      cases Option.some.inj left
      have stamp := journal_modified mem change
      have late := (mem_journal mem).1
      omega

theorem find?_run_of_untouched {s : Store} (asc : Ascending s.entries) {ms : List Move} {k : String}
    (untouched : ∀ w ∈ s.journal ms, w.entry.key ≠ k) : (s.run ms).find? k = s.find? k := by
  rcases find?_run_cases asc ms k with ⟨_, same⟩ | ⟨w, mem, key, _⟩
  · exact same
  · exact absurd key (untouched w mem)

theorem compareAndDelete_eq_true_iff {s : Store} {key : String} {modified : Nat} :
    (s.compareAndDelete key modified).1 = .ok true ↔
      s.available = true ∧ ∃ e, s.find? key = some e ∧ e.modified = modified := by
  unfold compareAndDelete reachable
  cases s.available with
  | false => simp
  | true =>
    cases s.find? key with
    | none => simp
    | some e =>
      by_cases same : e.modified = modified <;> simp [same]

/-- Two states of one run that hold a key with the same revision hold the same entry, and so does every
state in between: nothing was written about the key. So a deletion that asks for the revision a key was
read with is done exactly if the key has been left alone since, and what it deletes is what was read.
In every state an entry is not older than its key, nor newer than the store, and no two keys share
either revision. -/
theorem revisions_identify (limit : Nat) (before between : List Move) :
    let s := (empty limit).run before
    let t := s.run between
    (∀ k d e, s.find? k = some d → t.find? k = some e → d.modified = e.modified →
      d = e ∧ (∀ w ∈ s.journal between, w.entry.key ≠ k) ∧
        ∀ early late, between = early ++ late → (s.run early).find? k = some d) ∧
      (∀ k d, s.find? k = some d →
        ((t.compareAndDelete k d.modified).1 = .ok true ↔
          t.available = true ∧ ∀ w ∈ s.journal between, w.entry.key ≠ k) ∧
        ((t.compareAndDelete k d.modified).1 = .ok true → t.find? k = some d)) ∧
      ∀ d ∈ s.entries, d.created ≤ d.modified ∧ d.modified ≤ s.revision ∧
        ∀ e ∈ s.entries, d.key ≠ e.key → d.modified ≠ e.modified ∧ d.created ≠ e.created := by
  intro s t
  have asc : Ascending s.entries := run_ascending (s := empty limit) .nil before
  have revisions := (journal_revisions (empty limit) before).1
  have stamped : ∀ e ∈ s.entries, Stamped ([] ++ (empty limit).journal before) s.revision e :=
    run_stamped (s := empty limit) .nil (fun _ mem => nomatch mem) before
  have le {k d} (read : s.find? k = some d) : d.modified ≤ s.revision :=
    (stamped d (List.mem_of_find?_eq_some read)).modified_le
  refine ⟨fun k d e read now same => ?_, fun k d read => ?_, fun d mem => ?_⟩
  · obtain ⟨alone, kept⟩ := untouched asc (le read) now same
    refine ⟨Option.some.inj (read.symm.trans (kept.symm.trans now)), alone, ?_⟩
    rintro early late rfl
    rw [journal_append] at alone
    rw [find?_run_of_untouched asc fun w mem => alone w (List.mem_append_left _ mem)]
    exact read
  · rw [compareAndDelete_eq_true_iff]
    constructor
    · refine and_congr_right fun _ => ⟨?_, fun alone => ?_⟩
      · rintro ⟨e, now, same⟩
        exact (untouched asc (le read) now same.symm).1
      · exact ⟨d, (find?_run_of_untouched asc alone).trans read, rfl⟩
    · rintro ⟨_, e, now, same⟩
      exact (untouched asc (le read) now same.symm).2.trans read
  · refine ⟨(stamped d mem).created_le, (stamped d mem).modified_le, fun e mem' ne => ⟨?_, ?_⟩⟩
    · intro same
      exact ne ((stamped d mem).modified.key_unique revisions (same ▸ (stamped e mem').modified))
    · intro same
      exact ne ((stamped d mem).created.key_unique revisions (same ▸ (stamped e mem').created))

/-- A key that was deleted and written anew, with the same value, is spared by a deletion that asks for
its old revision. -/
theorem recreated_key_spared :
    let s := (empty 9).run [.serve (.create "k" [1])]
    let t := s.run [.serve (.delete "k"), .serve (.create "k" [1])]
    s.find? "k" = some ⟨"k", [1], 1, 1⟩ ∧ t.find? "k" = some ⟨"k", [1], 3, 3⟩ ∧
      (t.compareAndDelete "k" 1).1 ≠ .ok true := by
  intro s t
  refine ⟨rfl, rfl, fun done => ?_⟩
  have identified := revisions_identify 9 [.serve (.create "k" [1])]
    [.serve (.delete "k"), .serve (.create "k" [1])]
  have kept : t.find? "k" = some ⟨"k", [1], 1, 1⟩ :=
    (identified.2.1 "k" ⟨"k", [1], 1, 1⟩ rfl).2 done
  cases kept

end NetPool.Store
