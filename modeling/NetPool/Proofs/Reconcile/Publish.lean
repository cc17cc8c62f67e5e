import NetPool.Proofs.Keys
import NetPool.Proofs.Reconcile.Desk

/-! Ranges on file that go to the store. Each one is owned there already, or published, or given up;
what is published stands at keys that were free. -/

namespace NetPool

namespace Reconciler

/-- What the node writes at the key of a range of its own. -/
def ours (c : Reconciler) : Bytes := (ClaimRecord.ofOwner c.identity).encode

/-- A range of which nobody holds any part, as far as these claims tell, and that can be written to
the store: it has a key, and the key is free. -/
def Publishable (c : Reconciler) (pool : String) (owned foreign : List RangeClaim) (s : Store)
    (r : AddressRange) : Prop :=
  (∀ claim ∈ owned, claim.range ≠ r) ∧ (∀ claim ∈ foreign, claim.range.overlaps r = false) ∧
    ∃ key, c.layout.rangeKeyFor pool r = some key ∧ s.find? key = none

/-- The key at which a range can be tried, as far as the claims of others tell. -/
def keyToTry (c : Reconciler) (pool : String) (foreign : List RangeClaim) (r : AddressRange) :
    Option String :=
  if foreign.any (·.range.overlaps r) then none else c.layout.rangeKeyFor pool r

/-- What is left at a desk once one range on file has been dealt with: it is owned, or its key is written,
or it is off the file. -/
def fate (c : Reconciler) (cache : RangeCache) (pool : String) (owned foreign : List RangeClaim) (d : Desk)
    (r : AddressRange) : Desk :=
  if owned.any (·.range = r) then d
  else match (c.keyToTry pool foreign r).filter fun key => (d.store.find? key).isNone with
    | none => { d with files := (cache.delete d.files pool r).2 }
    | some key => { d with store := d.store.write key c.ours }

/-- What becomes of a store when ranges are published in a pool. -/
structure Published (c : Reconciler) (pool : String) (s t : Store) (ranges : List AddressRange) : Prop where
  serving : t.Serving
  locks : t.locks = s.locks
  kept : ∀ e ∈ s.entries, e ∈ t.entries
  added : ∀ e ∈ t.entries, e ∈ s.entries ∨
    ∃ r ∈ ranges, c.layout.rangeKeyFor pool r = some e.key ∧ e.value = c.ours
  written : ∀ r ∈ ranges, ∃ e ∈ t.entries, c.layout.rangeKeyFor pool r = some e.key ∧ e.value = c.ours

variable {c : Reconciler} {cache : RangeCache} {pool key : String} {d : Desk} {s t : Store}
  {owned foreign : List RangeClaim} {onFile ranges : List AddressRange} {r : AddressRange}

theorem Published.nil (serving : s.Serving) : Published c pool s s [] :=
  ⟨serving, rfl, fun _ mem => mem, fun _ mem => .inl mem, fun _ mem => by cases mem⟩

theorem Published.cons (serving : s.Serving) (slot : c.layout.rangeKeyFor pool r = some key)
    (free : s.find? key = none) (rest : Published c pool (s.write key c.ours) t ranges) :
    Published c pool s t (r :: ranges) where
  serving := rest.serving
  locks := rest.locks
  kept e mem := by
    refine rest.kept e ((Store.mem_write serving.ascending).2 (.inr ⟨mem, fun same => ?_⟩))
    rw [(Store.find?_eq_some_iff serving.ascending).2 ⟨mem, same⟩] at free
    cases free
  added e mem := by
    rcases rest.added e mem with before | ⟨q, there, at'⟩
    · rcases (Store.mem_write serving.ascending).1 before with rfl | ⟨before, _⟩
      · exact .inr ⟨r, List.mem_cons_self, slot, rfl⟩
      · exact .inl before
    · exact .inr ⟨q, List.mem_cons_of_mem r there, at'⟩
  written q mem := by
    rcases List.mem_cons.1 mem with rfl | mem
    · exact ⟨_, rest.kept _ ((Store.mem_write serving.ascending).2 (.inl rfl)), slot, rfl⟩
    · exact rest.written q mem

/-- What is published at one key leaves the other ranges what they were. -/
theorem publishable_write (serving : s.Serving) (slot : c.layout.rangeKeyFor pool r = some key)
    {q : AddressRange} (other : q ≠ r) : c.Publishable pool owned foreign (s.write key c.ours) q ↔
      c.Publishable pool owned foreign s q := by
  have same {k : String} (its : c.layout.rangeKeyFor pool q = some k) :
      (s.write key c.ours).find? k = s.find? k := by
    have ne : k ≠ key := by
      rintro rfl
      exact other (KeyLayout.rangeKeyFor_inj its slot)
    rw [Store.find?_write serving.ascending, if_neg ne]
  refine and_congr_right fun _ => and_congr_right fun _ => exists_congr fun k => ?_
  exact and_congr_right fun its => by rw [same its]

theorem giveUp_run {t : FileTree} (filed : cache.Filed t pool onFile) (r : AddressRange)
    (report : SyncReport) :
    ∃ report', (liftM (giveUp pool r report) : Operation SyncReport).outcome.run cache.reply t =
      some (.ok report', (cache.delete t pool r).2) := by
  obtain ⟨dropped, _⟩ := drop_run filed r
  have told : (liftM (giveUp pool r report) : Operation SyncReport).outcome =
      (drop pool r).bind fun went =>
        .pure (.ok (if went then { report with dropped := report.dropped + 1 } else report)) := by
    change Program.bind (Program.bind _ _) _ = _
    rw [Program.bind_assoc]
    rfl
  rw [told, Program.run_bind_of dropped]
  exact ⟨_, rfl⟩

/-- What is done about a range once its key has been tried. -/
def tried (pool : String) (r : AddressRange) (report : SyncReport) : Creation → Operation SyncReport
  | .created _ => return { report with published := report.published + 1 }
  | .alreadyExists => giveUp pool r report

theorem publish_eq (c : Reconciler) (pool : String) (owned foreign : List RangeClaim) (report : SyncReport)
    (r : AddressRange) : c.publish pool owned foreign report r =
      if owned.any (·.range = r) then pure report
      else match c.keyToTry pool foreign r with
        | none => liftM (giveUp pool r report)
        | some key => Program.ask (.store (.create key c.ours)) (Program.onwardStored (tried pool r report)) := by
  unfold publish keyToTry
  split
  · rfl
  · split
    · rfl
    · cases c.layout.rangeKeyFor pool r with
      | none => rfl
      | some key =>
        dsimp only
        rw [Operation.store_bind]
        congr 1
        funext x
        obtain _ | (_ | _) := x <;> rfl

theorem fate_of_owned (owns : owned.any (·.range = r) = true) : c.fate cache pool owned foreign d r = d := by
  rw [fate, if_pos owns]

theorem fate_of_keyless (foul : ¬ owned.any (·.range = r) = true) (keyless : c.keyToTry pool foreign r = none) :
    c.fate cache pool owned foreign d r = { d with files := (cache.delete d.files pool r).2 } := by
  rw [fate, if_neg foul, keyless]
  rfl

theorem fate_of_key (foul : ¬ owned.any (·.range = r) = true) (slot : c.keyToTry pool foreign r = some key) :
    c.fate cache pool owned foreign d r = if (d.store.find? key).isSome
      then { d with files := (cache.delete d.files pool r).2 }
      else { d with store := d.store.write key c.ours } := by
  rw [fate, if_neg foul, slot]
  cases found : d.store.find? key <;> simp [Option.filter, found]

theorem publish_run (owned foreign : List RangeClaim) (serving : d.store.Serving)
    (filed : cache.Filed d.files pool onFile) (r : AddressRange) (report : SyncReport) :
    ∃ report', (c.publish pool owned foreign report r).outcome.run (Desk.reply cache) d =
      some (.ok report', c.fate cache pool owned foreign d r) := by
  obtain ⟨less, given⟩ := giveUp_run filed r report
  have given := Desk.run_files (d := d) given
  rw [publish_eq]
  split
  · rename_i owns
    rw [fate_of_owned owns]
    exact ⟨report, rfl⟩
  · rename_i foul
    split
    · rename_i keyless
      rw [fate_of_keyless foul keyless]
      exact ⟨less, given⟩
    · rename_i key slot
      rw [fate_of_key foul slot]
      split
      · rename_i taken
        exact ⟨less, (Desk.run_store (serving.serve_taken taken c.ours) _).trans given⟩
      · rename_i absent
        have free : d.store.find? key = none := Option.not_isSome_iff_eq_none.1 absent
        exact ⟨_, Desk.run_store (serving.serve_created free c.ours) _⟩

theorem publishable_iff_key : c.Publishable pool owned foreign s r ↔ ¬ owned.any (·.range = r) = true ∧
    ∃ key, c.keyToTry pool foreign r = some key ∧ s.find? key = none := by
  have own : ¬ owned.any (·.range = r) = true ↔ ∀ claim ∈ owned, claim.range ≠ r := by simp
  have others : ¬ foreign.any (·.range.overlaps r) = true ↔
      ∀ claim ∈ foreign, claim.range.overlaps r = false := by simp
  rw [Publishable, ← own, ← others]
  refine and_congr_right fun _ => ?_
  by_cases shared : foreign.any (·.range.overlaps r) = true <;> simp [keyToTry, shared]

/-- What becomes of one range on file. -/
theorem fate_cases (c : Reconciler) (owned foreign : List RangeClaim)
    (filed : cache.Filed d.files pool onFile) (r : AddressRange) :
    ((∃ claim ∈ owned, claim.range = r) ∧ c.fate cache pool owned foreign d r = d) ∨
      ((∀ claim ∈ owned, claim.range ≠ r) ∧ ¬ c.Publishable pool owned foreign d.store r ∧
        (c.fate cache pool owned foreign d r).store = d.store ∧
        cache.Filed (c.fate cache pool owned foreign d r).files pool (Cache.without r onFile)) ∨
      (c.Publishable pool owned foreign d.store r ∧ ∃ key, c.layout.rangeKeyFor pool r = some key ∧
        d.store.find? key = none ∧
        c.fate cache pool owned foreign d r = { d with store := d.store.write key c.ours }) := by
  obtain ⟨_, without⟩ := drop_run filed r
  by_cases owns : owned.any (·.range = r) = true
  · exact .inl ⟨by simpa using owns, fate_of_owned owns⟩
  · have foul : ∀ claim ∈ owned, claim.range ≠ r := by simpa using owns
    rw [publishable_iff_key]
    cases slot : c.keyToTry pool foreign r with
    | none => exact .inr (.inl ⟨foul, by simp, by rw [fate_of_keyless owns slot]; exact ⟨rfl, without⟩⟩)
    | some key =>
      have its : c.layout.rangeKeyFor pool r = some key := by
        unfold keyToTry at slot
        split at slot
        · cases slot
        · exact slot
      have now : c.fate cache pool owned foreign d r = _ := fate_of_key owns slot
      cases found : d.store.find? key with
      | none =>
        rw [found] at now
        exact .inr (.inr ⟨⟨owns, key, rfl, found⟩, key, its, found, now⟩)
      | some e =>
        rw [found] at now
        exact .inr (.inl ⟨foul, by simp [found], by rw [now]; exact ⟨rfl, without⟩⟩)

/-- What becomes of ranges on file: the `new` ones are published, and those `after` stay on file. -/
structure Fates (c : Reconciler) (pool : String) (owned foreign : List RangeClaim) (s : Store)
    (onFile ranges after new : List AddressRange) : Prop where
  news : ∀ r, r ∈ new ↔ r ∈ ranges ∧ c.Publishable pool owned foreign s r
  stays : ∀ r, r ∈ after ↔ r ∈ onFile ∧ (r ∈ ranges → (∃ claim ∈ owned, claim.range = r) ∨ r ∈ new)

variable {after new : List AddressRange}

theorem Fates.kept (fates : Fates c pool owned foreign s onFile ranges after new)
    (owns : ∃ claim ∈ owned, claim.range = r) :
    Fates c pool owned foreign s onFile (r :: ranges) after new := by
  constructor
  · intro q
    rw [fates.news q, List.mem_cons]
    refine and_congr_left fun open' => (or_iff_right ?_).symm
    rintro rfl
    obtain ⟨claim, mem, same⟩ := owns
    exact open'.1 claim mem same
  · intro q
    rw [fates.stays q, List.mem_cons, or_imp]
    refine and_congr_right fun _ => (and_iff_right ?_).symm
    rintro rfl
    exact .inl owns

theorem Fates.dropped (fates : Fates c pool owned foreign s (Cache.without r onFile) ranges after new)
    (apart : Apart onFile) (here : r ∈ onFile) (fresh : r ∉ ranges)
    (foul : ∀ claim ∈ owned, claim.range ≠ r) (closed : ¬ c.Publishable pool owned foreign s r) :
    Fates c pool owned foreign s onFile (r :: ranges) after new := by
  have out : r ∉ new := fun mem => fresh ((fates.news r).1 mem).1
  constructor
  · intro q
    rw [fates.news q, List.mem_cons]
    refine and_congr_left fun open' => (or_iff_right ?_).symm
    rintro rfl
    exact closed open'
  · intro q
    rw [fates.stays q, apart.mem_without here, List.mem_cons, or_imp, and_assoc]
    refine and_congr_right fun _ => and_congr_left fun _ => ?_
    constructor
    · exact fun other same => absurd same other
    · rintro settled rfl
      rcases settled rfl with ⟨claim, mem, its⟩ | mem
      · exact foul claim mem its
      · exact out mem

theorem Fates.published
    (fates : Fates c pool owned foreign (s.write key c.ours) onFile ranges after new)
    (serving : s.Serving) (slot : c.layout.rangeKeyFor pool r = some key) (fresh : r ∉ ranges)
    (fine : c.Publishable pool owned foreign s r) :
    Fates c pool owned foreign s onFile (r :: ranges) after (r :: new) := by
  constructor
  · intro q
    rw [List.mem_cons, fates.news q, List.mem_cons]
    by_cases same : q = r
    · subst same
      exact ⟨fun _ => ⟨.inl rfl, fine⟩, fun _ => .inl rfl⟩
    · simp only [same, false_or, publishable_write serving slot same]
  · intro q
    rw [fates.stays q, List.mem_cons, List.mem_cons]
    by_cases same : q = r
    · subst same
      simp [fresh]
    · simp only [same, false_or]

/-- The ranges on file one after the other. Those that stay are owned or published. -/
theorem fates (owned foreign : List RangeClaim) (serving : d.store.Serving)
    (filed : cache.Filed d.files pool onFile) (apart : Apart onFile) (on : ∀ r ∈ ranges, r ∈ onFile)
    (once : ranges.Nodup) : ∃ after new,
      cache.Filed (ranges.foldl (c.fate cache pool owned foreign) d).files pool after ∧
        after.Sublist onFile ∧
        Published c pool d.store (ranges.foldl (c.fate cache pool owned foreign) d).store new ∧
        Fates c pool owned foreign d.store onFile ranges after new := by
  induction ranges generalizing d onFile with
  | nil =>
    refine ⟨onFile, [], filed, List.Sublist.refl onFile, .nil serving, ?_⟩
    constructor <;> simp
  | cons r ranges ih =>
    obtain ⟨fresh, once⟩ := List.nodup_cons.1 once
    have on' : ∀ q ∈ ranges, q ∈ onFile := fun q mem => on q (List.mem_cons_of_mem r mem)
    rw [List.foldl_cons]
    -- `r` stays and the store is as it was, or `r` is gone from the file, or its key is written.
    rcases fate_cases c owned foreign filed r with
      ⟨owns, same⟩ | ⟨foul, closed, same, filed⟩ | ⟨fine, key, slot, free, wrote⟩
    · rw [same]
      obtain ⟨after, new, filed, among, published, fates⟩ := ih serving filed apart on' once
      exact ⟨after, new, filed, among, published, fates.kept owns⟩
    · have here := on r List.mem_cons_self
      have on' : ∀ q ∈ ranges, q ∈ Cache.without r onFile := by
        intro q mem
        refine (apart.mem_without here).2 ⟨on' q mem, ?_⟩
        rintro rfl
        exact fresh mem
      obtain ⟨after, new, filed, among, published, fates⟩ :=
        ih (same ▸ serving) filed (apart.without r) on' once
      rw [same] at published fates
      exact ⟨after, new, filed, among.trans List.eraseP_sublist, published,
        fates.dropped apart here fresh foul closed⟩
    · rw [wrote]
      obtain ⟨after, new, filed, among, published, fates⟩ :=
        ih (d := { d with store := d.store.write key c.ours }) (serving.write key c.ours) filed apart on' once
      exact ⟨after, r :: new, filed, among, published.cons serving slot free,
        fates.published serving slot fresh fine⟩

/-- Where a range has been dealt with the store answers as before, and the file can be read. -/
theorem fate_stays (owned foreign : List RangeClaim) (serving : d.store.Serving)
    (filed : cache.Filed d.files pool onFile) (r : AddressRange) :
    (c.fate cache pool owned foreign d r).store.Serving ∧
      ∃ after, cache.Filed (c.fate cache pool owned foreign d r).files pool after := by
  rcases fate_cases c owned foreign filed r with
    ⟨_, same⟩ | ⟨_, _, same, without⟩ | ⟨_, key, _, _, wrote⟩
  · exact same.symm ▸ ⟨serving, onFile, filed⟩
  · exact ⟨same.symm ▸ serving, _, without⟩
  · rw [wrote]
    exact ⟨serving.write key c.ours, onFile, filed⟩

theorem publishEach_run (owned foreign : List RangeClaim) (serving : d.store.Serving)
    (filed : cache.Filed d.files pool onFile) (ranges : List AddressRange) (report : SyncReport) :
    ∃ report', (ranges.foldlM (c.publish pool owned foreign) report : Operation SyncReport).outcome.run
        (Desk.reply cache) d = some (.ok report', ranges.foldl (c.fate cache pool owned foreign) d) := by
  induction ranges generalizing d onFile report with
  | nil => exact ⟨report, rfl⟩
  | cons r ranges ih =>
    obtain ⟨report', first⟩ := publish_run (c := c) owned foreign serving filed r report
    obtain ⟨serving, after, filed⟩ := fate_stays (c := c) owned foreign serving filed r
    obtain ⟨report', rest⟩ := ih serving filed report'
    refine ⟨report', ?_⟩
    rw [List.foldlM_cons, Operation.bind_eq]
    exact (Program.run_bind_of first _).trans rest

end Reconciler

end NetPool
