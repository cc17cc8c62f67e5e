import NetPool.Store.Serve

/-! Entries stand in the order of their keys, each key once. So a lookup is membership, a write is an
update at one key, and the entries that start with a text stand together: a read finds them all. -/

namespace NetPool

theorem find?_filter_key {α κ : Type} [DecidableEq κ] (key : α → κ) (test : κ → Bool) (l : List α)
    (k : κ) : (l.filter fun a => test (key a)).find? (fun a => decide (key a = k)) =
      if test k = true then l.find? (fun a => decide (key a = k)) else none := by
  induction l with
  | nil => simp
  | cons a l ih =>
    by_cases here : key a = k
    · by_cases pass : test k = true
      · rw [List.filter_cons, if_pos (here ▸ pass), List.find?_cons_of_pos (by simpa using here),
          if_pos pass, List.find?_cons_of_pos (by simpa using here)]
      · rw [List.filter_cons, if_neg (here ▸ pass), ih, if_neg pass, if_neg pass]
    · rw [List.find?_cons_of_neg (by simpa using here), List.filter_cons]
      split
      · rw [List.find?_cons_of_neg (by simpa using here), ih]
      · exact ih

theorem startsWith_iff {s start : String} : startsWith s start = true ↔ start.toList <+: s.toList := by
  simp only [startsWith, List.isPrefixOf_iff_prefix]

theorem startsWith_append (start rest : String) : startsWith (start ++ rest) start = true := by
  rw [startsWith_iff, String.toList_append]
  exact List.prefix_append _ _

/-- Below a text, nothing starts with it. -/
theorem not_lt_of_isPrefix {p s : List Char} (h : p <+: s) : ¬ s < p := by
  induction p generalizing s with
  | nil => exact List.not_lt_nil s
  | cons c p ih =>
    obtain ⟨t, rfl⟩ := h
    rw [List.cons_append, List.cons_lt_cons_iff]
    rintro (lt | ⟨_, lt⟩)
    · exact Char.lt_irrefl c lt
    · exact ih (List.prefix_append p t) lt

/-- Between a text and one that starts with it, all starts with it. -/
theorem isPrefix_of_between {p s t : List Char} (above : ¬ s < p) (below : s < t) (h : p <+: t) :
    p <+: s := by
  induction p generalizing s t with
  | nil => exact List.nil_prefix
  | cons c p ih =>
    obtain ⟨u, rfl⟩ := h
    cases s with
    | nil => exact absurd (List.nil_lt_cons c p) above
    | cons d s =>
      rw [List.cons_append, List.cons_lt_cons_iff] at below
      rw [List.cons_lt_cons_iff] at above
      rcases below with lt | ⟨rfl, lt⟩
      · exact absurd (Or.inl lt) above
      · have rest := ih (fun hlt => above (Or.inr ⟨rfl, hlt⟩)) lt (List.prefix_append p u)
        exact (List.prefix_cons_inj d).2 rest

namespace Store

/-- Ascending by key, each key once. -/
def Ascending (es : List KeyValue) : Prop := es.Pairwise (·.key < ·.key)

theorem Ascending.eq_of_key {es : List KeyValue} (asc : Ascending es) {a b : KeyValue}
    (ha : a ∈ es) (hb : b ∈ es) (same : a.key = b.key) : a = b := by
  induction es with
  | nil => cases ha
  | cons e es ih =>
    have split := List.pairwise_cons.1 asc
    rcases List.mem_cons.1 ha with rfl | ha' <;> rcases List.mem_cons.1 hb with rfl | hb'
    · rfl
    · exact absurd (same ▸ split.1 b hb') (String.lt_irrefl _)
    · exact absurd (same ▸ split.1 a ha') (String.lt_irrefl _)
    · exact ih split.2 ha' hb'

theorem find?_eq_some_iff {s : Store} (asc : Ascending s.entries) {key : String} {e : KeyValue} :
    s.find? key = some e ↔ e ∈ s.entries ∧ e.key = key := by
  constructor
  · intro h
    exact ⟨List.mem_of_find?_eq_some h, by simpa using List.find?_some h⟩
  · rintro ⟨mem, rfl⟩
    cases h : s.find? e.key with
    | none => simpa using List.find?_eq_none.1 h e mem
    | some a =>
      have key : a.key = e.key := by simpa using List.find?_some h
      exact congrArg some (asc.eq_of_key (List.mem_of_find?_eq_some h) mem key)

theorem mem_place {es : List KeyValue} (asc : Ascending es) {e a : KeyValue} :
    a ∈ place e es ↔ a = e ∨ (a ∈ es ∧ a.key ≠ e.key) := by
  induction es with
  | nil => simp [place]
  | cons b es ih =>
    have split := List.pairwise_cons.1 asc
    unfold place
    split
    · rename_i lt
      have ne : b.key ≠ e.key := fun h => String.lt_irrefl _ (h ▸ lt)
      rw [List.mem_cons, ih split.2, List.mem_cons]
      constructor
      · rintro (rfl | rfl | h)
        · exact .inr ⟨.inl rfl, ne⟩
        · exact .inl rfl
        · exact .inr ⟨.inr h.1, h.2⟩
      · rintro (rfl | ⟨rfl | h, hne⟩)
        · exact .inr (.inl rfl)
        · exact .inl rfl
        · exact .inr (.inr ⟨h, hne⟩)
    · split
      · rename_i eq
        rw [List.mem_cons, List.mem_cons]
        constructor
        · rintro (rfl | h)
          · exact .inl rfl
          · exact .inr ⟨.inr h, fun same => String.lt_irrefl _ (eq.trans same.symm ▸ split.1 a h)⟩
        · rintro (rfl | ⟨rfl | h, hne⟩)
          · exact .inl rfl
          · exact absurd eq hne
          · exact .inr h
      · rename_i nlt ne
        rw [List.mem_cons]
        constructor
        · rintro (rfl | h)
          · exact .inl rfl
          · refine .inr ⟨h, fun same => ?_⟩
            rcases List.mem_cons.1 h with rfl | h
            · exact ne same
            · exact nlt (same ▸ split.1 a h)
        · rintro (rfl | h)
          · exact .inl rfl
          · exact .inr h.1

theorem place_ascending {es : List KeyValue} (asc : Ascending es) (e : KeyValue) :
    Ascending (place e es) := by
  induction es with
  | nil => exact List.pairwise_singleton _ _
  | cons b es ih =>
    have split := List.pairwise_cons.1 asc
    unfold place
    split
    · rename_i lt
      refine List.pairwise_cons.2 ⟨fun a ha => ?_, ih split.2⟩
      rcases (mem_place split.2).1 ha with rfl | h
      · exact lt
      · exact split.1 a h.1
    · split
      · rename_i eq
        exact List.pairwise_cons.2 ⟨fun a ha => eq ▸ split.1 a ha, split.2⟩
      · rename_i nlt ne
        have lt : e.key < b.key := by
          apply Decidable.byContradiction
          intro h
          exact ne (String.le_antisymm h nlt)
        refine List.pairwise_cons.2 ⟨fun a ha => ?_, asc⟩
        rcases List.mem_cons.1 ha with rfl | h
        · exact lt
        · exact String.lt_trans lt (split.1 a h)

theorem takeWhile_startsWith {es : List KeyValue} (asc : Ascending es) {start : String}
    (above : ∀ e ∈ es, ¬ e.key < start) :
    es.takeWhile (startsWith ·.key start) = es.filter (startsWith ·.key start) := by
  induction es with
  | nil => rfl
  | cons e es ih =>
    have split := List.pairwise_cons.1 asc
    by_cases covered : startsWith e.key start = true
    · rw [List.takeWhile_cons, List.filter_cons, if_pos covered, if_pos covered,
        ih split.2 fun a ha => above a (List.mem_cons_of_mem _ ha)]
    · rw [List.takeWhile_cons, List.filter_cons, if_neg covered, if_neg covered, eq_comm,
        List.filter_eq_nil_iff]
      intro a ha h
      exact covered (startsWith_iff.2 (isPrefix_of_between (above e List.mem_cons_self)
        (split.1 a ha) (startsWith_iff.1 h)))

/-- The entries that start with a text stand together. -/
theorem takeWhile_dropWhile_startsWith {es : List KeyValue} (asc : Ascending es) (start : String) :
    (es.dropWhile (·.key < start)).takeWhile (startsWith ·.key start) =
      es.filter (startsWith ·.key start) := by
  induction es with
  | nil => rfl
  | cons e es ih =>
    have split := List.pairwise_cons.1 asc
    by_cases below : e.key < start
    · have out : ¬ startsWith e.key start = true :=
        fun h => not_lt_of_isPrefix (startsWith_iff.1 h) below
      rw [List.dropWhile_cons, if_pos (decide_eq_true below), List.filter_cons, if_neg out,
        ih split.2]
    · rw [List.dropWhile_cons, if_neg (by simpa using below)]
      apply takeWhile_startsWith asc
      intro a ha lt
      rcases List.mem_cons.1 ha with rfl | h
      · exact below lt
      · exact below (String.lt_trans (split.1 a h) lt)

theorem range_eq {s : Store} (asc : Ascending s.entries) (start : String) :
    s.range start = s.reachable.map fun _ =>
      { entries := s.entries.filter (startsWith ·.key start), revision := s.revision } := by
  rw [range, takeWhile_dropWhile_startsWith asc]
  cases s.reachable <;> rfl

end Store

end NetPool
