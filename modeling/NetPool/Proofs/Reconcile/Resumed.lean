import NetPool.Proofs.Mishaps
import NetPool.Proofs.Reconcile.Converge

/-! A pass that is cut short by a store that fails, and the pass after it. What the first one has published
is the node's own by then, and what it has given up is off the file; so the second one takes up where the
first was cut, and both together do what one does that is not cut. -/

namespace NetPool

/-- The same files beside stores with the same data. -/
structure Desk.Alike (d e : Desk) : Prop where
  files : e.files = d.files
  data : Store.SameData d.store e.store

theorem Desk.Alike.symm {d e : Desk} (alike : d.Alike e) : e.Alike d :=
  ⟨alike.files.symm, alike.data.symm⟩

theorem Desk.Alike.trans {d e f : Desk} (first : d.Alike e) (second : e.Alike f) : d.Alike f :=
  ⟨second.files.trans first.files, first.data.trans second.data⟩

namespace Reconciler

variable {c : Reconciler} {cache : RangeCache} {pool key : String} {d e : Desk} {s : ShakyDesk}
  {owned foreign : List RangeClaim} {onFile between ranges pre post : List AddressRange} {t : FileTree}
  {report : SyncReport}

/-! What is left of a desk depends on its data only. -/

theorem entriesOf_same {s t : Store} (same : Store.SameData s t) : c.entriesOf pool t = c.entriesOf pool s := by
  rw [entriesOf, same.entries]
  rfl

theorem fate_alike (alike : d.Alike e) (r : AddressRange) :
    (c.fate cache pool owned foreign d r).Alike (c.fate cache pool owned foreign e r) := by
  obtain ⟨files, data⟩ := alike
  unfold fate
  split
  · exact ⟨files, data⟩
  · simp only [data.find?]
    split
    · exact ⟨by rw [files], data⟩
    · exact ⟨files, data.write _ _⟩

/-- A range that is owned and overlapped as before has the fate it had. -/
theorem fate_congr {owned' foreign' : List RangeClaim} {r : AddressRange}
    (own : owned'.any (·.range = r) = owned.any (·.range = r))
    (others : foreign'.any (·.range.overlaps r) = foreign.any (·.range.overlaps r)) :
    c.fate cache pool owned' foreign' d r = c.fate cache pool owned foreign d r := by
  rw [fate, fate, keyToTry, keyToTry, own, others]

/-- What is left of a desk once these ranges on file have been dealt with, by the claims in a store. -/
def dealt (c : Reconciler) (cache : RangeCache) (pool : String) (s : Store) (d : Desk)
    (ranges : List AddressRange) : Desk :=
  ranges.foldl (c.fate cache pool (c.owned (c.entriesOf pool s)) (c.foreign (c.entriesOf pool s))) d

theorem dealt_alike {s t : Store} (read : Store.SameData s t) (alike : d.Alike e) (ranges : List AddressRange) :
    (c.dealt cache pool s d ranges).Alike (c.dealt cache pool t e ranges) := by
  unfold dealt
  rw [entriesOf_same read]
  induction ranges generalizing d e with
  | nil => exact alike
  | cons r ranges ih => exact ih (fate_alike alike r)

/-! A pass that is cut. -/

theorem publish_shaken (owned foreign : List RangeClaim) (serving : s.desk.store.Serving)
    (filed : cache.Filed s.desk.files pool onFile) (r : AddressRange) (report : SyncReport) :
    ∃ x e m, (c.publish pool owned foreign report r).outcome.run (ShakyDesk.reply cache) s =
        some (x, ⟨e, m⟩) ∧
      ((∃ report', x = .ok report') ∧ e = c.fate cache pool owned foreign s.desk r ∨
        (∃ f, x = .error f) ∧ e = s.desk) := by
  obtain ⟨less, given⟩ := giveUp_run filed r report
  rw [publish_eq]
  split
  · rename_i owns
    exact ⟨_, _, _, rfl, .inl ⟨⟨_, rfl⟩, (fate_of_owned owns).symm⟩⟩
  · rename_i foul
    split
    · rename_i keyless
      exact ⟨_, _, _, ShakyDesk.run_files given, .inl ⟨⟨_, rfl⟩, (fate_of_keyless foul keyless).symm⟩⟩
    · rename_i key slot
      rw [fate_of_key foul slot, Operation.outcome]
      cases mishap : s.mishaps 0 with
      | some e =>
        rw [ShakyDesk.run_struck rfl mishap]
        exact ⟨_, _, _, rfl, .inr ⟨⟨_, rfl⟩, rfl⟩⟩
      | none =>
        split
        · rename_i taken
          rw [ShakyDesk.run_spared rfl mishap (serving.serve_taken taken c.ours)]
          exact ⟨_, _, _, ShakyDesk.run_files (s := ⟨s.desk, s.mishaps.rest⟩) given, .inl ⟨⟨_, rfl⟩, rfl⟩⟩
        · rename_i absent
          have free : s.desk.store.find? key = none := Option.not_isSome_iff_eq_none.1 absent
          rw [ShakyDesk.run_spared rfl mishap (serving.serve_created free c.ours)]
          exact ⟨_, _, _, rfl, .inl ⟨⟨_, rfl⟩, rfl⟩⟩

/-- The ranges on file are dealt with one after the other, up to where it is cut. -/
theorem publishEach_shaken (owned foreign : List RangeClaim) (serving : s.desk.store.Serving)
    (filed : cache.Filed s.desk.files pool onFile) (ranges : List AddressRange) (report : SyncReport) :
    ∃ x m pre post, ranges = pre ++ post ∧
      (ranges.foldlM (c.publish pool owned foreign) report : Operation SyncReport).outcome.run
        (ShakyDesk.reply cache) s =
          some (x, ⟨pre.foldl (c.fate cache pool owned foreign) s.desk, m⟩) := by
  induction ranges generalizing s onFile report with
  | nil => exact ⟨_, _, [], [], rfl, rfl⟩
  | cons r ranges ih =>
    obtain ⟨_, _, m, first, ⟨⟨report', rfl⟩, rfl⟩ | ⟨⟨f, rfl⟩, rfl⟩⟩ :=
      publish_shaken (c := c) owned foreign serving filed r report
    · obtain ⟨serving, after, filed⟩ := fate_stays (c := c) owned foreign serving filed r
      obtain ⟨x, m, pre, post, rfl, rest⟩ :=
        ih (s := ⟨c.fate cache pool owned foreign s.desk r, m⟩) serving filed report'
      refine ⟨x, m, r :: pre, post, rfl, ?_⟩
      rw [List.foldlM_cons, Operation.bind_eq]
      exact (Program.run_bind_of first _).trans rest
    · refine ⟨.error f, m, [], r :: ranges, rfl, ?_⟩
      rw [List.foldlM_cons, Operation.bind_eq]
      exact Program.run_bind_of first _

theorem settle_shaken {entries : List KeyValue} (serving : s.desk.store.Serving)
    (filed : cache.Filed s.desk.files pool onFile)
    (adopt : (c.adopt pool { pool } onFile (c.owned entries)).run cache.reply s.desk.files = some (report, t))
    (filed' : cache.Filed t pool between) : ∃ x m pre post, between = pre ++ post ∧
      (c.settle pool entries).run (ShakyDesk.reply cache) s = some (x,
        ⟨pre.foldl (c.fate cache pool (c.owned entries) (c.foreign entries)) { s.desk with files := t }, m⟩) := by
  obtain ⟨x, m, pre, post, split, publish⟩ :=
    publishEach_shaken (c := c) (s := { s with desk := { s.desk with files := t } }) (c.owned entries)
      (c.foreign entries) serving filed' between report
  refine ⟨x, m, pre, post, split, ?_⟩
  unfold settle
  rw [ShakyDesk.run_cache filed.serve_load]
  change Program.run _ (Program.bind (c.adopt pool { pool } onFile _) _) s = _
  rw [Program.run_bind_of (ShakyDesk.run_files adopt), publishAll,
    ShakyDesk.run_cache (s := { s with desk := { s.desk with files := t } }) filed'.serve_load]
  exact publish

/-- What happens under the lock. -/
theorem syncLocked_shaken (serving : s.desk.store.Serving)
    (filed : cache.Filed s.desk.files pool onFile)
    (adopt : (c.adopt pool { pool } onFile (c.owned (c.entriesOf pool s.desk.store))).run cache.reply
      s.desk.files = some (report, t))
    (filed' : cache.Filed t pool between) (apart' : Apart between) :
    ∃ x e m, (c.syncLocked pool).outcome.run (ShakyDesk.reply cache) s = some (x, ⟨e, m⟩) ∧
      e.store.Serving ∧ e.store.locks = s.desk.store.locks ∧
      (e = s.desk ∨ ∃ pre post, between = pre ++ post ∧
        e = c.dealt cache pool s.desk.store { s.desk with files := t } pre) := by
  rw [syncLocked_eq, Operation.outcome]
  cases mishap : s.mishaps 0 with
  | some e =>
    rw [ShakyDesk.run_struck rfl mishap]
    exact ⟨_, _, _, rfl, serving, rfl, .inl rfl⟩
  | none =>
    have found : s.desk.store.serve (.range (c.layout.claimStart .range pool)) =
        (some (.ok ⟨c.entriesOf pool s.desk.store, s.desk.store.revision⟩), s.desk.store) := by
      rw [Store.serve, Store.range_of_available serving.ascending serving.available]
      rfl
    rw [ShakyDesk.run_spared rfl mishap found]
    obtain ⟨x, m, pre, post, split, settled⟩ :=
      settle_shaken (c := c) (s := ⟨s.desk, s.mishaps.rest⟩) serving filed adopt filed'
    have on : ∀ r ∈ pre, r ∈ between := fun r mem => split ▸ List.mem_append_left post mem
    have once : pre.Nodup := (split ▸ apart'.nodup).sublist (List.sublist_append_left pre post)
    obtain ⟨_, _, _, _, published, _⟩ := fates (c := c) (d := { s.desk with files := t })
      (c.owned (c.entriesOf pool s.desk.store)) (c.foreign (c.entriesOf pool s.desk.store)) serving filed'
      apart' on once
    exact ⟨x, _, m, settled, published.serving, published.locks, .inr ⟨pre, post, split, rfl⟩⟩

/-- A pass ends with the lock free. It has done nothing yet, or it has put the claims of the node on file
and has dealt with some of the ranges there. -/
theorem sync_shaken (ready : c.Ready cache pool onFile d)
    (adopt : (c.adopt pool { pool } onFile (c.owned (c.entriesOf pool d.store))).run cache.reply d.files =
      some (report, t))
    (filed' : cache.Filed t pool between) (apart' : Apart between) (mishaps : Mishaps) :
    ∃ x h, (c.sync pool).outcome.run (ShakyDesk.reply cache) ⟨d, mishaps⟩ = some (x, h) ∧
      h.desk.store.Serving ∧ h.desk.store.isLocked (c.layout.mutex .range pool) = false ∧
      (d.Alike h.desk ∨ ∃ pre post, between = pre ++ post ∧
        (c.dealt cache pool d.store { d with files := t } pre).Alike h.desk) := by
  have serving := ready.serving.granted (c.layout.mutex .range pool)
  let g : Desk := { d with store := d.store.granted (c.layout.mutex .range pool) }
  have granted : Store.SameData d.store g.store := ⟨rfl, rfl, rfl, rfl, rfl⟩
  cases mishap : mishaps 0 with
  | some e =>
    exact ⟨_, _, ShakyDesk.run_unlocked (s := ⟨d, mishaps⟩) mishap _ _, ready.serving, ready.free,
      .inl ⟨rfl, .refl _⟩⟩
  | none =>
    obtain ⟨x, e, m, within, serving, locks, cut⟩ :=
      syncLocked_shaken (s := ⟨g, mishaps.rest⟩) serving ready.filed adopt filed' apart'
    refine ⟨x, _, ShakyDesk.run_locked (s := ⟨d, mishaps⟩) ready.serving.available ready.free mishap within,
      serving.unlock _, Store.isLocked_unlock locks ready.free, ?_⟩
    have unlocked : e.Alike { e with
        store := (e.store.unlock (d.store.grant (c.layout.mutex .range pool))).2 } :=
      ⟨rfl, Store.sameData_unlock _ _⟩
    rcases cut with rfl | ⟨pre, post, split, rfl⟩
    · exact .inl (Desk.Alike.trans (e := g) ⟨rfl, granted⟩ unlocked)
    · have start : Desk.Alike { d with files := t } { g with files := t } := ⟨rfl, granted⟩
      exact .inr ⟨pre, post, split, (dealt_alike (.refl d.store) start pre).trans unlocked⟩

/-! The pass after it. -/

/-- A pass that is not cut puts the claims of the node on file and deals with all ranges there. -/
theorem sync_dealt (ready : c.Ready cache pool onFile d)
    (adopt : (c.adopt pool { pool } onFile (c.owned (c.entriesOf pool d.store))).run cache.reply d.files =
      some (report, t))
    (filed' : cache.Filed t pool between) (apart' : Apart between) :
    ∃ report' e, (c.sync pool).outcome.run (Desk.reply cache) d = some (.ok report', e) ∧
      (c.dealt cache pool d.store { d with files := t } between).Alike e ∧
      e.store.isLocked (c.layout.mutex .range pool) = false := by
  have serving := ready.serving.granted (c.layout.mutex .range pool)
  have start : Desk.Alike { d with files := t } ⟨d.store.granted (c.layout.mutex .range pool), t⟩ :=
    ⟨rfl, rfl, rfl, rfl, rfl, rfl⟩
  obtain ⟨report', settled⟩ :=
    settle_run_of_adopt (d := ⟨d.store.granted (c.layout.mutex .range pool), d.files⟩) serving ready.filed
      adopt filed'
  obtain ⟨_, _, _, _, published, _⟩ := fates (c := c) (d := ⟨d.store.granted (c.layout.mutex .range pool), t⟩)
    (c.owned (c.entriesOf pool d.store)) (c.foreign (c.entriesOf pool d.store)) serving filed' apart'
    (fun _ mem => mem) apart'.nodup
  exact ⟨report', _, sync_run ready.serving ready.free settled,
    (dealt_alike (.refl d.store) start between).trans ⟨rfl, Store.sameData_unlock _ _⟩,
    Store.isLocked_unlock published.locks ready.free⟩

/-- Of a list with no range twice, a part of it is told by what is in it. -/
theorem filter_mem_of_sublist {part : List AddressRange} (among : part.Sublist ranges)
    (once : ranges.Nodup) : ranges.filter (· ∈ part) = part := by
  induction among with
  | slnil => rfl
  | cons r among ih =>
    obtain ⟨fresh, once⟩ := List.nodup_cons.1 once
    rw [List.filter_cons_of_neg (by simpa using fun mem => fresh (among.subset mem)), ih once]
  | cons_cons r among ih =>
    obtain ⟨fresh, once⟩ := List.nodup_cons.1 once
    rw [List.filter_cons_of_pos (by simp)]
    congr 1
    refine Eq.trans (List.filter_congr fun q mem => ?_) (ih once)
    have other : q ≠ r := fun same => fresh (same ▸ mem)
    simp [other]

/-- A part that has the whole end has some of what is before it, and the end. -/
theorem eq_filter_append_of_sublist {part : List AddressRange} (among : part.Sublist (pre ++ post))
    (once : (pre ++ post).Nodup) (behind : ∀ r ∈ post, r ∈ part) :
    part = pre.filter (· ∈ part) ++ post := by
  have whole := filter_mem_of_sublist among once
  have stays : post.filter (· ∈ part) = post :=
    List.filter_eq_self.2 fun r mem => decide_eq_true (behind r mem)
  rw [List.filter_append, stays] at whole
  exact whole.symm

/-- What is dealt with already may come before the rest. -/
theorem foldl_append_of_kept {f g : Desk → AddressRange → Desk} (kept : ∀ e, ∀ r ∈ pre, g e r = e)
    (rest : ∀ e, ∀ r ∈ post, g e r = f e r) (b : Desk) :
    (pre ++ post).foldl g b = post.foldl f b := by
  have idle : pre.foldl g b = b := (List.foldl_ext g (fun e _ => e) b kept).trans (List.foldl_fixed pre)
  rw [List.foldl_append, idle]
  exact List.foldl_ext g f b rest

theorem any_owned {s : Store} {r : AddressRange} :
    (c.owned (c.entriesOf pool s)).any (·.range = r) = true ↔ c.Owns pool s r := by
  rw [← owned_iff, List.any_eq_true]
  simp only [decide_eq_true_eq]

/-- What is published is nobody else's. -/
theorem Published.any_foreign {s t : Store} {new : List AddressRange} {r : AddressRange}
    (published : Published c pool s t new) (named : KeyLayout.Named pool) :
    (c.foreign (c.entriesOf pool t)).any (·.range.overlaps r) = true ↔
      (c.foreign (c.entriesOf pool s)).any (·.range.overlaps r) = true := by
  have same (claim : RangeClaim) :
      claim ∈ c.foreign (c.entriesOf pool t) ↔ claim ∈ c.foreign (c.entriesOf pool s) := by
    rw [mem_foreign, mem_foreign]
    refine and_congr_left fun other => (published.mem_claims named).trans (or_iff_left ?_)
    rintro ⟨q, _, rfl⟩
    exact other rfl
  simp only [List.any_eq_true, same]

/-- Once some of the ranges on file have been dealt with, those that are left, dealt with by the claims
that the store then holds, come to the same as the rest by the claims that it held before. -/
theorem dealt_resumes {s : Store} (named : KeyLayout.Named pool) (serving : s.Serving)
    (filed : cache.Filed t pool between) (apart : Apart between)
    (owned : ∀ r, c.Owns pool s r → r ∈ between) (split : between = pre ++ post) :
    ∃ left, cache.Filed (c.dealt cache pool s ⟨s, t⟩ pre).files pool left ∧ Apart left ∧
      (∀ r, c.Owns pool (c.dealt cache pool s ⟨s, t⟩ pre).store r → r ∈ left) ∧
      c.dealt cache pool (c.dealt cache pool s ⟨s, t⟩ pre).store (c.dealt cache pool s ⟨s, t⟩ pre) left =
        c.dealt cache pool s ⟨s, t⟩ between := by
  have all := split ▸ apart.nodup
  have on : ∀ r ∈ pre, r ∈ between := fun r mem => split ▸ List.mem_append_left post mem
  obtain ⟨left, new, filed', among, published, fates⟩ := fates (c := c) (d := ⟨s, t⟩)
    (c.owned (c.entriesOf pool s)) (c.foreign (c.entriesOf pool s)) serving filed apart on
    (all.sublist (List.sublist_append_left pre post))
  change cache.Filed (c.dealt cache pool s ⟨s, t⟩ pre).files pool left at filed'
  change Published c pool s (c.dealt cache pool s ⟨s, t⟩ pre).store new at published
  generalize met : c.dealt cache pool s ⟨s, t⟩ pre = b at filed' published ⊢
  have news {r : AddressRange} (mem : r ∈ new) : r ∈ pre := ((fates.news r).1 mem).1
  have owns (r : AddressRange) : c.Owns pool b.store r ↔ c.Owns pool s r ∨ r ∈ new :=
    published.owns named
  refine ⟨left, filed', List.Pairwise.sublist among apart, fun r mine => ?_, ?_⟩
  · rw [fates.stays r, owned_iff]
    rcases (owns r).1 mine with before | fresh
    · exact ⟨owned r before, fun _ => .inl before⟩
    · exact ⟨on r (news fresh), fun _ => .inr fresh⟩
  -- What is left of the first part is owned by now; the rest stands on file behind it, as owned and as
  -- overlapped as before.
  · subst split
    have fresh {r : AddressRange} (mem : r ∈ post) : r ∉ pre := fun first =>
      (List.nodup_append.1 all).2.2 r first r mem rfl
    have parts : left = pre.filter (· ∈ left) ++ post :=
      eq_filter_append_of_sublist among all fun r mem =>
        (fates.stays r).2 ⟨List.mem_append_right pre mem, fun first => absurd first (fresh mem)⟩
    have kept (e : Desk) (r : AddressRange) (mem : r ∈ pre.filter (· ∈ left)) :
        c.fate cache pool (c.owned (c.entriesOf pool b.store)) (c.foreign (c.entriesOf pool b.store)) e r =
          e := by
      obtain ⟨first, here⟩ := List.mem_filter.1 mem
      have settled := ((fates.stays r).1 (of_decide_eq_true here)).2 first
      exact fate_of_owned (any_owned.2 ((owns r).2 (settled.imp_left owned_iff.1)))
    have rest (e : Desk) (r : AddressRange) (mem : r ∈ post) :
        c.fate cache pool (c.owned (c.entriesOf pool b.store)) (c.foreign (c.entriesOf pool b.store)) e r =
          c.fate cache pool (c.owned (c.entriesOf pool s)) (c.foreign (c.entriesOf pool s)) e r := by
      have old : r ∉ new := fun made => fresh mem (news made)
      refine fate_congr (Bool.eq_iff_iff.2 ?_) (Bool.eq_iff_iff.2 (published.any_foreign named))
      rw [any_owned, any_owned, owns r]
      exact or_iff_left old
    calc c.dealt cache pool b.store b left
      _ = c.dealt cache pool s b post := by
        conv_lhs => rw [parts]
        exact foldl_append_of_kept kept rest b
      _ = c.dealt cache pool s ⟨s, t⟩ (pre ++ post) := by
        rw [← met]
        exact List.foldl_append.symm

/-- A pass on a store of which any requests may fail, other than to let a lock go, and after it one that
nothing fails. The second one comes to an end with the files and the store as a single pass leaves them
that nothing fails, and the lock of the pool is free after both. -/
theorem sync_resumes (ready : c.Ready cache pool onFile d) (apart : Apart onFile)
    (disjoint : Apart ((c.claims pool d.store).map (·.range))) (mishaps : Mishaps) :
    ∃ x h, (c.sync pool).outcome.run (ShakyDesk.reply cache) ⟨d, mishaps⟩ = some (x, h) ∧
      h.desk.store.isLocked (c.layout.mutex .range pool) = false ∧
      ∃ whole e report f, (c.sync pool).outcome.run (Desk.reply cache) d = some (.ok whole, e) ∧
        (c.sync pool).outcome.run (Desk.reply cache) h.desk = some (.ok report, f) ∧
        e.Alike f ∧ f.store.isLocked (c.layout.mutex .range pool) = false := by
  obtain ⟨_, t, between, adopt, filed, apart', adopted⟩ :=
    adopt_run (c := c) ready.filed apart (apart_owned disjoint) { pool }
  obtain ⟨whole, e, single, ended, _⟩ := sync_dealt ready adopt filed apart'
  obtain ⟨x, h, first, serving, free, cut⟩ := sync_shaken ready adopt filed apart' mishaps
  refine ⟨x, h, first, free, whole, e, ?_⟩
  rcases cut with alike | ⟨pre, post, split, alike⟩
  · -- Nothing has been done yet, so the second pass is a first one.
    have again : c.Ready cache pool onFile h.desk :=
      ⟨ready.named, serving, free, alike.files.symm ▸ ready.filed⟩
    rw [← alike.files, ← entriesOf_same alike.data] at adopt
    obtain ⟨report, f, second, resumed, free⟩ := sync_dealt again adopt filed apart'
    have start : Desk.Alike { d with files := t } { h.desk with files := t } := ⟨rfl, alike.data⟩
    exact ⟨report, f, single, second,
      (ended.symm.trans (dealt_alike alike.data start between)).trans resumed, free⟩
  · have mine (r : AddressRange) (owns : c.Owns pool d.store r) : r ∈ between :=
      (adopted r).2 (.inl (List.mem_map.2 (owned_iff.2 owns)))
    obtain ⟨left, filed, apart', owned, resumes⟩ :=
      dealt_resumes ready.named ready.serving filed apart' mine split
    generalize c.dealt cache pool d.store ⟨d.store, t⟩ pre = b at alike filed owned resumes
    have again : c.Ready cache pool left h.desk :=
      ⟨ready.named, serving, free, alike.files.symm ▸ filed⟩
    -- The claims of the node are on file already.
    have there : ∀ claim ∈ c.owned (c.entriesOf pool h.desk.store), claim.range ∈ left := by
      rw [entriesOf_same alike.data]
      exact fun claim mem => owned _ (owned_iff.1 ⟨claim, mem, rfl⟩)
    obtain ⟨_, adopt⟩ : ∃ report, (c.adopt pool { pool } left
        (c.owned (c.entriesOf pool h.desk.store))).run cache.reply h.desk.files =
          some (report, h.desk.files) := by
      rw [adopt_eq_of_mem there]
      exact ⟨_, rfl⟩
    obtain ⟨report, f, second, resumed, free⟩ := sync_dealt again adopt again.filed apart'
    rw [← resumes] at ended
    exact ⟨report, f, single, second,
      (ended.symm.trans (dealt_alike alike.data alike left)).trans resumed, free⟩

/-! A pass over claims and files that do not fit together, cut at one of its requests. -/

/-- The request after so many others fails, and no other one. -/
def strike (n : Nat) : Mishaps := fun k => if k = n then some (.unavailable "down") else none

/-- The pass after one that is cut at its fourth request makes up for it. -/
theorem muddle_resumes : ∃ x h, (me.sync "blue").outcome.run (ShakyDesk.reply nook) ⟨muddle, strike 3⟩ =
      some (x, h) ∧
    ∃ whole e report f, (me.sync "blue").outcome.run (Desk.reply nook) muddle = some (.ok whole, e) ∧
      (me.sync "blue").outcome.run (Desk.reply nook) h.desk = some (.ok report, f) ∧ e.Alike f := by
  have apart : Apart found := by
    unfold Apart
    decide +kernel
  have disjoint : Apart ((me.claims "blue" muddle.store).map (·.range)) := by
    rw [claims_muddle]
    unfold Apart
    decide +kernel
  obtain ⟨x, h, first, _, whole, e, report, f, single, second, alike, _⟩ :=
    sync_resumes muddle_ready apart disjoint (strike 3)
  exact ⟨x, h, first, whole, e, report, f, single, second, alike⟩

end Reconciler

end NetPool
