import NetPool.Proofs.Reconcile.Publish
import NetPool.Proofs.Record

/-! A pass brings the files of a node and a store together, and the next pass finds nothing to do. The
ranges on file are in the end those that the node owns in the store. -/

namespace NetPool

theorem RangeClaim.ofEntry_eq_ok {l : KeyLayout} {e : KeyValue} {c : RangeClaim} :
    RangeClaim.ofEntry l e = .ok c ↔ l.parseRangeKey e.key = some (c.pool, c.range) ∧
      ∃ r, ClaimRecord.decode? e.value = some r ∧ c.owner = r.owner := by
  unfold RangeClaim.ofEntry ClaimRecord.decode
  obtain ⟨pool, range, owner⟩ := c
  cases l.parseRangeKey e.key with
  | none => simp
  | some slot =>
    cases ClaimRecord.decode? e.value with
    | none => simp [bind, Except.bind]
    | some r =>
      simp only [bind, Except.bind, pure, Except.pure, Except.ok.injEq, RangeClaim.mk.injEq,
        Option.some.injEq, Prod.ext_iff, exists_eq_left', and_assoc, eq_comm]

/-- An owner written at the key of a range is read as its claim to the range. -/
theorem RangeClaim.ofEntry_owned {l : KeyLayout} {pool owner : String} {r : AddressRange} {e : KeyValue}
    (named : KeyLayout.Named pool) (slot : l.rangeKeyFor pool r = some e.key)
    (value : e.value = (ClaimRecord.ofOwner owner).encode) :
    startsWith e.key (l.claimStart .range pool) = true ∧
      RangeClaim.ofEntry l e = .ok ⟨pool, r, owner⟩ := by
  obtain ⟨n, key, block⟩ := KeyLayout.rangeKeyFor_eq_some.1 slot
  constructor
  · rw [key]
    exact startsWith_append _ _
  · rw [RangeClaim.ofEntry_eq_ok, key, KeyLayout.parseRangeKey_rangeKey_eq_some, value]
    exact ⟨⟨rfl, named, rfl, block⟩, _, ClaimRecord.decode?_encode _, rfl⟩

namespace Reconciler

/-- The entries that a pass reads. -/
def entriesOf (c : Reconciler) (pool : String) (s : Store) : List KeyValue :=
  s.entries.filter (startsWith ·.key (c.layout.claimStart .range pool))

/-- The claims of a pool in a store, as far as they can be read. -/
def claims (c : Reconciler) (pool : String) (s : Store) : List RangeClaim :=
  decodeClaims (RangeClaim.ofEntry c.layout) (c.entriesOf pool s)

/-- The store holds a claim of the node to this range. -/
def Owns (c : Reconciler) (pool : String) (s : Store) (r : AddressRange) : Prop :=
  ∃ claim ∈ c.claims pool s, claim.owner = c.identity ∧ claim.range = r

/-- A range that no claim in the store overlaps, as long as a power of two, with a key that is free. -/
def Unclaimed (c : Reconciler) (pool : String) (s : Store) (r : AddressRange) : Prop :=
  (∀ claim ∈ c.claims pool s, claim.range.overlaps r = false) ∧
    ∃ n, r.size.toNat = 2 ^ n ∧ s.find? (c.layout.rangeKey pool r.start n) = none

/-- Nobody else writes to the store or holds the lock of the pool, nothing fails, and these ranges are
on file. The pool has a name that can be told from its keys, as every pool made as configured has. -/
structure Ready (c : Reconciler) (cache : RangeCache) (pool : String) (onFile : List AddressRange)
    (d : Desk) : Prop where
  named : KeyLayout.Named pool
  serving : d.store.Serving
  free : d.store.isLocked (c.layout.mutex .range pool) = false
  filed : cache.Filed d.files pool onFile

variable {c : Reconciler} {cache : RangeCache} {pool key : String} {d : Desk} {s t : Store}
  {owned foreign : List RangeClaim} {onFile ranges : List AddressRange} {r : AddressRange} {e : KeyValue}

/-- A power of two within the space is the size of a block. -/
theorem exponent_le {n : Nat} (size : r.size.toNat = 2 ^ n) : n ≤ 32 := by
  have stop := r.stop.toNat_lt
  have bound : 2 ^ n ≤ 2 ^ 32 := by
    rw [← size, AddressRange.size_toNat]
    omega
  exact (Nat.pow_le_pow_iff_right (by decide)).1 bound

theorem unclaimed_iff : c.Unclaimed pool s r ↔
    (∀ claim ∈ c.claims pool s, claim.range.overlaps r = false) ∧
      ∃ key ∈ c.layout.rangeKeyFor pool r, s.find? key = none := by
  refine and_congr_right fun _ => ?_
  constructor
  · rintro ⟨n, size, free⟩
    exact ⟨_, KeyLayout.rangeKeyFor_eq_some.2 ⟨n, rfl, size, exponent_le size⟩, free⟩
  · rintro ⟨key, slot, free⟩
    obtain ⟨n, rfl, size, _⟩ := KeyLayout.rangeKeyFor_eq_some.1 slot
    exact ⟨n, size, free⟩

instance : DecidablePred (c.Unclaimed pool s) := fun _ => decidable_of_iff _ unclaimed_iff.symm

theorem mem_claims {claim : RangeClaim} : claim ∈ c.claims pool s ↔ ∃ e ∈ s.entries,
    startsWith e.key (c.layout.claimStart .range pool) = true ∧
      RangeClaim.ofEntry c.layout e = .ok claim := by
  simp only [claims, entriesOf, mem_decodeClaims, List.mem_filter, and_assoc]

/-- What the node writes for a range is read as its claim to it. -/
theorem ofEntry_ours (named : KeyLayout.Named pool) (slot : c.layout.rangeKeyFor pool r = some e.key)
    (value : e.value = c.ours) : startsWith e.key (c.layout.claimStart .range pool) = true ∧
      RangeClaim.ofEntry c.layout e = .ok ⟨pool, r, c.identity⟩ :=
  RangeClaim.ofEntry_owned named slot value

theorem Published.mem_claims (named : KeyLayout.Named pool) {new : List AddressRange}
    (published : Published c pool s t new) {claim : RangeClaim} :
    claim ∈ c.claims pool t ↔ claim ∈ c.claims pool s ∨ ∃ r ∈ new, claim = ⟨pool, r, c.identity⟩ := by
  rw [Reconciler.mem_claims, Reconciler.mem_claims]
  constructor
  · rintro ⟨e, mem, below, read⟩
    rcases published.added e mem with before | ⟨r, there, slot, value⟩
    · exact .inl ⟨e, before, below, read⟩
    · rw [(ofEntry_ours named slot value).2] at read
      exact .inr ⟨r, there, (Except.ok.inj read).symm⟩
  · rintro (⟨e, mem, at'⟩ | ⟨r, there, rfl⟩)
    · exact ⟨e, published.kept e mem, at'⟩
    · obtain ⟨e, mem, slot, value⟩ := published.written r there
      exact ⟨e, mem, ofEntry_ours named slot value⟩

theorem Published.owns (named : KeyLayout.Named pool) {new : List AddressRange}
    (published : Published c pool s t new) : c.Owns pool t r ↔ c.Owns pool s r ∨ r ∈ new := by
  unfold Owns
  simp only [published.mem_claims named]
  constructor
  · rintro ⟨claim, mem | ⟨q, there, rfl⟩, owner, range⟩
    · exact .inl ⟨claim, mem, owner, range⟩
    · exact .inr (range ▸ there)
  · rintro (⟨claim, mem, at'⟩ | there)
    · exact ⟨claim, .inl mem, at'⟩
    · exact ⟨_, .inr ⟨r, there, rfl⟩, rfl, rfl⟩

/-- Claims stay disjoint when ranges are published that share nothing with them or each other. -/
theorem Published.apart (named : KeyLayout.Named pool) {new : List AddressRange}
    (published : Published c pool s t new) (serving : s.Serving)
    (disjoint : Apart ((c.claims pool s).map (·.range)))
    (clear : ∀ claim ∈ c.claims pool s, ∀ r ∈ new, claim.range.overlaps r = false)
    (once : ∀ q ∈ new, ∀ r ∈ new, q.overlaps r = true → q = r) :
    Apart ((c.claims pool t).map (·.range)) := by
  have old {e : KeyValue} {a : RangeClaim} (mem : e ∈ s.entries)
      (below : startsWith e.key (c.layout.claimStart .range pool) = true)
      (read : RangeClaim.ofEntry c.layout e = .ok a) : a ∈ c.claims pool s :=
    Reconciler.mem_claims.2 ⟨e, mem, below, read⟩
  have new' {e : KeyValue} {a : RangeClaim} {r : AddressRange}
      (slot : c.layout.rangeKeyFor pool r = some e.key) (value : e.value = c.ours)
      (read : RangeClaim.ofEntry c.layout e = .ok a) : a.range = r := by
    rw [(ofEntry_ours named slot value).2] at read
    cases read
    rfl
  have before := (apart_decoded (serving.ascending.filter _)).1 disjoint
  refine (apart_decoded (published.serving.ascending.filter _)).2 ?_
  intro e he f hf other a b readE readF
  obtain ⟨he, belowE⟩ := List.mem_filter.1 he
  obtain ⟨hf, belowF⟩ := List.mem_filter.1 hf
  -- Two entries that were there, one of them new, or both.
  rcases published.added e he with oldE | ⟨q, hq, slotE, valueE⟩ <;>
    rcases published.added f hf with oldF | ⟨r, hr, slotF, valueF⟩
  · exact before e (List.mem_filter.2 ⟨oldE, belowE⟩) f (List.mem_filter.2 ⟨oldF, belowF⟩) other a b
      readE readF
  · rw [new' slotF valueF readF]
    exact clear a (old oldE belowE readE) r hr
  · rw [new' slotE valueE readE, AddressRange.overlaps_comm]
    exact clear b (old oldF belowF readF) q hq
  · rw [new' slotE valueE readE, new' slotF valueF readF]
    refine Bool.eq_false_iff.2 fun shared => other ?_
    cases once q hq r hr shared
    exact published.serving.ascending.eq_of_key he hf (Option.some.inj (slotE.symm.trans slotF))

theorem owned_iff {r : AddressRange} :
    (∃ claim ∈ c.owned (c.entriesOf pool s), claim.range = r) ↔ c.Owns pool s r := by
  simp only [mem_owned, and_assoc]
  rfl

theorem apart_owned (disjoint : Apart ((c.claims pool s).map (·.range))) :
    Apart ((c.owned (c.entriesOf pool s)).map (·.range)) := by
  refine List.Pairwise.sublist (List.Sublist.map _ ?_) disjoint
  rw [owned, List.partition_eq_filter_filter]
  exact List.filter_sublist

/-- Among the ranges on file after the owned ones were put there, those to publish are those on file
before that nobody claims. -/
theorem publishable_iff {after : List AddressRange}
    (adopted : Adopted ((c.owned (c.entriesOf pool s)).map (·.range)) onFile after) :
    r ∈ after ∧ c.Publishable pool (c.owned (c.entriesOf pool s)) (c.foreign (c.entriesOf pool s)) s r ↔
      r ∈ onFile ∧ c.Unclaimed pool s r := by
  rw [adopted r, List.mem_map, List.forall_mem_map, unclaimed_iff]
  constructor
  · rintro ⟨⟨claim, mem, same⟩ | ⟨mem, clear⟩, own, apart, free⟩
    · exact absurd same (own claim mem)
    · refine ⟨mem, fun claim there => ?_, free⟩
      by_cases owner : claim.owner = c.identity
      · rw [AddressRange.overlaps_comm]
        exact clear claim (mem_owned.2 ⟨there, owner⟩)
      · exact apart claim (mem_foreign.2 ⟨there, owner⟩)
  · rintro ⟨mem, clear, free⟩
    refine ⟨.inr ⟨mem, fun claim there => ?_⟩, fun claim there same => ?_, fun claim there => ?_, free⟩
    · rw [AddressRange.overlaps_comm]
      exact clear claim (mem_owned.1 there).1
    · have shared := clear claim (mem_owned.1 there).1
      rw [same, r.overlaps_self] at shared
      cases shared
    · exact clear claim (mem_foreign.1 there).1

/-- Once the claims of the node are on file, the ranges there are dealt with one after the other. -/
theorem settle_run_of_adopt {entries : List KeyValue} {between : List AddressRange} {t : FileTree}
    {report : SyncReport} (serving : d.store.Serving) (filed : cache.Filed d.files pool onFile)
    (adopt : (c.adopt pool { pool } onFile (c.owned entries)).run cache.reply d.files = some (report, t))
    (filed' : cache.Filed t pool between) : ∃ report', (c.settle pool entries).run (Desk.reply cache) d =
      some (.ok report', between.foldl (c.fate cache pool (c.owned entries) (c.foreign entries))
        { d with files := t }) := by
  obtain ⟨report', publish⟩ := publishEach_run (c := c) (d := { d with files := t }) (c.owned entries)
    (c.foreign entries) serving filed' between report
  refine ⟨report', ?_⟩
  unfold settle
  rw [Desk.run_cache filed.serve_load]
  change Program.run _ (Program.bind (c.adopt pool { pool } onFile _) _) d = _
  rw [Program.run_bind_of (Desk.run_files adopt), publishAll,
    Desk.run_cache (d := { d with files := t }) filed'.serve_load]
  exact publish

theorem settle_run (serving : d.store.Serving) (filed : cache.Filed d.files pool onFile)
    (apart : Apart onFile) (disjoint : Apart ((c.claims pool d.store).map (·.range))) :
    ∃ report e after new, (c.settle pool (c.entriesOf pool d.store)).run (Desk.reply cache) d =
        some (.ok report, e) ∧
      cache.Filed e.files pool after ∧ Apart after ∧ Published c pool d.store e.store new ∧
      (∀ r, r ∈ new ↔ r ∈ onFile ∧ c.Unclaimed pool d.store r) ∧
      ∀ r, r ∈ after ↔ c.Owns pool d.store r ∨ r ∈ new := by
  obtain ⟨report, t, between, adopt, filed', apart', adopted⟩ :=
    adopt_run (c := c) filed apart (apart_owned disjoint) { pool }
  obtain ⟨report, run⟩ := settle_run_of_adopt serving filed adopt filed'
  obtain ⟨after, new, filed'', among, published, fates⟩ :=
    fates (c := c) (d := { d with files := t }) (c.owned (c.entriesOf pool d.store))
      (c.foreign (c.entriesOf pool d.store)) serving filed' apart' (fun _ mem => mem) apart'.nodup
  refine ⟨report, _, after, new, run, filed'', List.Pairwise.sublist among apart', published,
    fun r => (fates.news r).trans (publishable_iff adopted), fun r => ?_⟩
  rw [fates.stays r, owned_iff]
  constructor
  · exact fun ⟨mem, settled⟩ => settled mem
  · rintro (owns | mem)
    · exact ⟨(adopted r).2 (.inl (List.mem_map.2 (owned_iff.2 owns))), fun _ => .inl owns⟩
    · exact ⟨((fates.news r).1 mem).1, fun _ => .inr mem⟩

/-! A pass that finds nothing to do. -/

theorem adopt_eq_of_mem {owned : List RangeClaim} (on : ∀ claim ∈ owned, claim.range ∈ onFile)
    (report : SyncReport) : c.adopt pool report onFile owned =
      .pure { report with kept := report.kept + owned.length } := by
  induction owned generalizing report with
  | nil => rfl
  | cons claim owned ih =>
    rw [adopt, if_pos (List.contains_iff_mem.2 (on claim List.mem_cons_self)),
      ih fun c mem => on c (List.mem_cons_of_mem claim mem), List.length_cons]
    congr 2
    change report.kept + 1 + owned.length = _
    omega

theorem publishEach_eq_of_owned (owns : ∀ r ∈ ranges, ∃ claim ∈ owned, claim.range = r)
    (report : SyncReport) : (ranges.foldlM (c.publish pool owned foreign) report : Operation SyncReport) =
      pure report := by
  induction ranges with
  | nil => rfl
  | cons r ranges ih =>
    obtain ⟨claim, mem, same⟩ := owns r List.mem_cons_self
    have there : owned.any (·.range = r) = true := List.any_eq_true.2 ⟨claim, mem, decide_eq_true same⟩
    rw [List.foldlM_cons, publish, if_pos there]
    exact ih fun q mem => owns q (List.mem_cons_of_mem r mem)

/-- Where the ranges on file are those that the node owns, all are kept, and nothing changes. -/
theorem settle_quiet (filed : cache.Filed d.files pool onFile) (apart : Apart onFile)
    (disjoint : Apart ((c.claims pool d.store).map (·.range)))
    (owns : ∀ r, r ∈ onFile ↔ c.Owns pool d.store r) :
    (c.settle pool (c.entriesOf pool d.store)).run (Desk.reply cache) d =
      some (.ok { pool, kept := onFile.length }, d) := by
  have same (r : AddressRange) : r ∈ (c.owned (c.entriesOf pool d.store)).map (·.range) ↔ r ∈ onFile := by
    rw [List.mem_map, owned_iff, owns r]
  have count : (c.owned (c.entriesOf pool d.store)).length = onFile.length := by
    rw [← List.length_map (·.range)]
    exact ((List.perm_ext_iff_of_nodup (apart_owned disjoint).nodup apart.nodup).2 same).length_eq
  unfold settle
  rw [Desk.run_cache filed.serve_load]
  change Program.run _ (Program.bind (c.adopt pool { pool } onFile _) _) d = _
  rw [adopt_eq_of_mem fun claim mem => (same _).1 (List.mem_map_of_mem mem)]
  change Program.run _ (c.publishAll pool _ _) d = _
  rw [publishAll, Desk.run_cache filed.serve_load]
  change Program.run _ (Operation.outcome (List.foldlM _ _ onFile)) d = _
  rw [publishEach_eq_of_owned fun r mem => owned_iff.2 ((owns r).1 mem), count, Nat.zero_add]
  rfl

/-! The lock around a pass. -/

theorem sync_run (serving : d.store.Serving)
    (free : d.store.isLocked (c.layout.mutex .range pool) = false) {report : SyncReport} {e : Desk}
    (settled : (c.settle pool (c.entriesOf pool d.store)).run (Desk.reply cache)
      { d with store := d.store.granted (c.layout.mutex .range pool) } = some (.ok report, e)) :
    (c.sync pool).outcome.run (Desk.reply cache) d = some (.ok report,
      { e with store := (e.store.unlock (d.store.grant (c.layout.mutex .range pool))).2 }) := by
  have found :
      (d.store.granted (c.layout.mutex .range pool)).serve (.range (c.layout.claimStart .range pool)) =
        (some (.ok ⟨c.entriesOf pool d.store, d.store.revision⟩),
          d.store.granted (c.layout.mutex .range pool)) := by
    have ready := serving.granted (c.layout.mutex .range pool)
    rw [Store.serve, Store.range_of_available ready.ascending ready.available]
    rfl
  have within : Program.run (Desk.reply cache) (c.syncLocked pool)
      { d with store := d.store.granted (c.layout.mutex .range pool) } = some (.ok report, e) := by
    rw [syncLocked_eq,
      Desk.run_store (d := { d with store := d.store.granted (c.layout.mutex .range pool) }) found]
    exact settled
  exact Desk.run_locked serving.available free within

/-! Convergence. -/

/-- What a pass leaves behind: these ranges on file, each once, which are those that the node owns in
the store. They are those it owned before, and of those on file before the ones that nobody claimed,
which are published. No other entry of the store has come, gone or changed. -/
structure Converged (c : Reconciler) (cache : RangeCache) (pool : String) (onFile : List AddressRange)
    (before after : Desk) (kept : List AddressRange) : Prop where
  loads : cache.load after.files pool = .ok kept
  apart : Apart kept
  owned : ∀ r, r ∈ kept ↔ c.Owns pool after.store r
  exact : ∀ r, r ∈ kept ↔
    c.Owns pool before.store r ∨ (r ∈ onFile ∧ c.Unclaimed pool before.store r)
  stay : ∀ e ∈ before.store.entries, e ∈ after.store.entries
  added : ∀ e ∈ after.store.entries, e ∈ before.store.entries ∨
    ∃ r ∈ onFile, c.Unclaimed pool before.store r ∧ c.layout.rangeKeyFor pool r = some e.key ∧
      e.value = c.ours

theorem sync_settles (ready : c.Ready cache pool onFile d) (apart : Apart onFile)
    (disjoint : Apart ((c.claims pool d.store).map (·.range))) :
    ∃ report e kept, (c.sync pool).outcome.run (Desk.reply cache) d = some (.ok report, e) ∧
      c.Converged cache pool onFile d e kept ∧ c.Ready cache pool kept e ∧
      Apart ((c.claims pool e.store).map (·.range)) := by
  have within := ready.serving.granted (c.layout.mutex .range pool)
  obtain ⟨report, e, kept, new, run, filed, sorted, published, news, stays⟩ :=
    settle_run (d := { d with store := d.store.granted (c.layout.mutex .range pool) }) within ready.filed
      apart disjoint
  have same := Store.sameData_unlock e.store (d.store.grant (c.layout.mutex .range pool))
  have claims : c.claims pool (e.store.unlock (d.store.grant (c.layout.mutex .range pool))).2 =
      c.claims pool e.store := by
    rw [Reconciler.claims, entriesOf, same.entries]
    rfl
  have stayed : Apart ((c.claims pool e.store).map (·.range)) := by
    refine published.apart ready.named within disjoint ?_ ?_
    · exact fun claim mem r there => ((news r).1 there).2.1 claim mem
    · exact fun q hq r hr => apart.eq ((news q).1 hq).1 ((news r).1 hr).1
  refine ⟨report, _, kept, sync_run ready.serving ready.free run, ⟨filed.loads, sorted, fun r => ?_,
    fun r => ?_, fun x mem => ?_, fun x mem => ?_⟩, ⟨ready.named, published.serving.unlock _,
    Store.isLocked_unlock published.locks ready.free, filed⟩, ?_⟩
  · rw [stays r, Owns, Owns, claims]
    exact (published.owns ready.named).symm
  · rw [stays r, news r]
    rfl
  · rw [same.entries]
    exact published.kept x mem
  · rw [same.entries] at mem
    refine (published.added x mem).imp_right ?_
    rintro ⟨r, there, slot, value⟩
    exact ⟨r, ((news r).1 there).1, ((news r).1 there).2, slot, value⟩
  · rw [claims]
    exact stayed

/-- Where the ranges on file are those that the node owns, a pass keeps them all and changes nothing. -/
theorem sync_quiet (ready : c.Ready cache pool onFile d) (apart : Apart onFile)
    (disjoint : Apart ((c.claims pool d.store).map (·.range)))
    (owns : ∀ r, r ∈ onFile ↔ c.Owns pool d.store r) :
    ∃ e, (c.sync pool).outcome.run (Desk.reply cache) d =
        some (.ok { pool, kept := onFile.length }, e) ∧
      e.files = d.files ∧ Store.SameData d.store e.store := by
  have run := settle_quiet (d := { d with store := d.store.granted (c.layout.mutex .range pool) })
    ready.filed apart disjoint owns
  refine ⟨_, sync_run ready.serving ready.free run, rfl, ?_⟩
  have same := Store.sameData_unlock (d.store.granted (c.layout.mutex .range pool))
    (d.store.grant (c.layout.mutex .range pool))
  exact ⟨same.revision, same.entries, same.history, same.floor, same.historyLimit⟩

/-- A pass of a node that works alone comes to an end, with the ranges on file and the node's claims in
the store the same, and the pass after it finds nothing to do. -/
theorem sync_converges (ready : c.Ready cache pool onFile d) (apart : Apart onFile)
    (disjoint : Apart ((c.claims pool d.store).map (·.range))) :
    ∃ report e kept, (c.sync pool).outcome.run (Desk.reply cache) d = some (.ok report, e) ∧
      c.Converged cache pool onFile d e kept ∧
      ∃ f, (c.sync pool).outcome.run (Desk.reply cache) e = some (.ok { pool, kept := kept.length }, f) ∧
        f.files = e.files ∧ Store.SameData e.store f.store := by
  obtain ⟨report, e, kept, run, converged, again, stayed⟩ := sync_settles ready apart disjoint
  exact ⟨report, e, kept, run, converged, sync_quiet again converged.apart stayed converged.owned⟩

/-! A node with claims and files that do not fit together. -/

def nook : RangeCache := ⟨"/a"⟩

def me : Reconciler := ⟨.standard, "me"⟩

/-- A range by its first and last address, counted from ten dot nothing. -/
def tenth (first last : UInt64) : AddressRange := .span (0x0A000000 + first) (0x0A000000 + last)

/-- The files of a node with these ranges on file for one pool. -/
def shelf (ranges : List AddressRange) : FileTree where
  entries := [(["a"], .directory), (["a", "blue"], .directory), (["a", "blue", ".lock"], .file []),
    (["a", "blue", "rangeset_cache"], .file (Text.utf8 (Cache.render ranges)))]
  home := []

theorem shelf_filed (ranges : List AddressRange) : nook.Filed (shelf ranges) "blue" ranges := by
  have leads : (shelf ranges).Leads (nook.poolPath "blue") ["a", "blue"] := by
    constructor <;> rfl
  have path : FileTree.Fine (nook.path "blue") := ⟨by decide +kernel, by decide +kernel⟩
  have settled : RangeCache.Settled nook "blue" (shelf ranges) ["a", "blue"] :=
    ⟨leads, ⟨by decide +kernel, by decide +kernel⟩, [], rfl⟩
  have clear : RangeCache.Clear nook "blue" (shelf ranges) ["a", "blue"] :=
    ⟨⟨by decide +kernel, by decide +kernel⟩, path, nofun, nofun⟩
  have rooted : (shelf ranges).Rooted := by
    intro p home
    cases List.prefix_nil.1 home
    rfl
  exact settled.filed clear rooted (RangeCache.load_render leads path rfl)

/-- The first shares addresses with two blocks of the node, the second with a block of another one. The
key of the third holds nothing that can be read, and the last one is no block. -/
def found : List AddressRange :=
  [tenth 0x8 0x17, tenth 0x108 0x10B, tenth 0x200 0x20F, tenth 0x300 0x30F, tenth 0x400 0x409]

def muddle : Desk where
  store := ((((Store.empty 100).write (me.layout.rangeKey "blue" 0x0A000000 4) me.ours).write
    (me.layout.rangeKey "blue" 0x0A000010 4) me.ours).write
    (me.layout.rangeKey "blue" 0x0A000100 4) (ours ⟨.standard, "you"⟩)).write
    (me.layout.rangeKey "blue" 0x0A000200 4) []
  files :=
    { entries := [(["a"], .directory), (["a", "blue"], .directory), (["a", "blue", ".lock"], .file []),
        (["a", "blue", "rangeset_cache"], .file (Text.utf8 (Cache.render found)))]
      home := [] }

theorem claims_muddle : me.claims "blue" muddle.store = [⟨"blue", tenth 0x0 0xF, "me"⟩,
    ⟨"blue", tenth 0x10 0x1F, "me"⟩, ⟨"blue", tenth 0x100 0x10F, "you"⟩] := by decide +kernel

theorem muddle_ready : me.Ready nook "blue" found muddle := by
  have serving : (Store.empty 100).Serving := ⟨.nil, rfl, rfl⟩
  constructor
  · exact ⟨by decide, by decide⟩
  · exact (((serving.write _ _).write _ _).write _ _).write _ _
  · rfl
  · exact shelf_filed found

/-- What did not fit is gone, and the next pass keeps what is there. -/
theorem muddle_converges : ∃ report e kept f,
    (me.sync "blue").outcome.run (Desk.reply nook) muddle = some (.ok report, e) ∧
      nook.load e.files "blue" = .ok kept ∧
      kept.Perm [tenth 0x0 0xF, tenth 0x10 0x1F, tenth 0x300 0x30F] ∧
      (me.sync "blue").outcome.run (Desk.reply nook) e = some (.ok { pool := "blue", kept := 3 }, f) ∧
      f.files = e.files ∧ Store.SameData e.store f.store := by
  have apart : Apart found := by
    unfold Apart
    decide +kernel
  have disjoint : Apart ((me.claims "blue" muddle.store).map (·.range)) := by
    rw [claims_muddle]
    unfold Apart
    decide +kernel
  obtain ⟨report, e, kept, run, converged, f, again, files, data⟩ :=
    sync_converges muddle_ready apart disjoint
  have owns (r : AddressRange) :
      me.Owns "blue" muddle.store r ↔ r = tenth 0x0 0xF ∨ r = tenth 0x10 0x1F := by
    rw [Owns, claims_muddle]
    simp [me, eq_comm]
  have free : found.filter (me.Unclaimed "blue" muddle.store) = [tenth 0x300 0x30F] := by decide +kernel
  have new (r : AddressRange) : r ∈ found ∧ me.Unclaimed "blue" muddle.store r ↔ r = tenth 0x300 0x30F := by
    rw [← List.mem_singleton, ← free, List.mem_filter, decide_eq_true_iff]
  have perm : kept.Perm [tenth 0x0 0xF, tenth 0x10 0x1F, tenth 0x300 0x30F] := by
    refine (List.perm_ext_iff_of_nodup converged.apart.nodup (by decide +kernel)).2 fun r => ?_
    rw [converged.exact r, owns r, new r]
    simp [or_assoc]
  rw [perm.length_eq] at again
  exact ⟨report, e, kept, f, run, converged.loads, perm, again, files, data⟩

end Reconciler

end NetPool
