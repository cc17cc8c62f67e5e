import NetPool.Proofs.Reconcile.Converge

/-! A node that works alone, with a store and files that may fail. A request that fails changes no entry
and no range on file; those that have failed are written down. -/

namespace NetPool

/-- What is safe holds wherever it comes to an end. -/
theorem Safe.ends {σ α : Type} {T : Terms σ} {post : α → σ → Prop} {p : Program α} {s t : σ} {a : α}
    (safe : Safe T post p s) (valid : T.valid s) (ends : p.Ends T.answers s a t) :
    T.valid t ∧ post a t := by
  induction ends with
  | pure a s => exact ⟨valid, safe s (T.refl s) valid⟩
  | ask answer rest ih =>
    obtain ⟨valid, _, rest⟩ := safe _ (T.refl _) valid _ _ answer
    exact ih rest valid

/-- Files on which a pool has the ranges it had on others. -/
structure RangeCache.Unharmed (c : RangeCache) (pool : String) (t u : FileTree) : Prop where
  rooted : t.Rooted → u.Rooted
  readable : c.Readable t pool → c.Readable u pool
  kept : c.kept u pool = c.kept t pool

theorem RangeCache.Unharmed.refl (c : RangeCache) (pool : String) (t : FileTree) :
    c.Unharmed pool t t := ⟨id, id, rfl⟩

namespace Reconciler

/-- Each claim of the pool stands at the key of its range. -/
def Canonical (c : Reconciler) (pool : String) (s : Store) : Prop :=
  ∀ e ∈ c.entriesOf pool s, ∀ claim, RangeClaim.ofEntry c.layout e = .ok claim →
    c.layout.rangeKeyFor pool claim.range = some e.key

variable {c : Reconciler} {pool : String} {s t : Store}

theorem Canonical.fewer (canonical : c.Canonical pool s) (fewer : ∀ e ∈ t.entries, e ∈ s.entries) :
    c.Canonical pool t := by
  intro e mem
  obtain ⟨mem, below⟩ := List.mem_filter.1 mem
  exact canonical e (List.mem_filter.2 ⟨fewer e mem, below⟩)

theorem claims_fewer (fewer : ∀ e ∈ t.entries, e ∈ s.entries) {claim : RangeClaim}
    (mem : claim ∈ c.claims pool t) : claim ∈ c.claims pool s := by
  obtain ⟨e, mem, read⟩ := mem_claims.1 mem
  exact mem_claims.2 ⟨e, fewer e mem, read⟩

/-- What is written at the key of a range is read as a claim to it, if it is read at all. -/
theorem ofEntry_slot {e : KeyValue} {claim : RangeClaim} {r : AddressRange}
    (slot : c.layout.rangeKeyFor pool r = some e.key) (read : RangeClaim.ofEntry c.layout e = .ok claim) :
    claim.pool = pool ∧ claim.range = r := by
  obtain ⟨n, key, size, _⟩ := KeyLayout.rangeKeyFor_eq_some.1 slot
  have parsed := ofEntry_parse read
  rw [key] at parsed
  obtain ⟨name, _, start, block, _⟩ := KeyLayout.parseRangeKey_rangeKey_eq_some.1 parsed
  exact ⟨name, AddressRange.eq_of_start_size start (block.trans size.symm)⟩

theorem Canonical.write (asc : Store.Ascending s.entries) (canonical : c.Canonical pool s)
    {key : String} {r : AddressRange} (slot : c.layout.rangeKeyFor pool r = some key) (value : Bytes) :
    c.Canonical pool (s.write key value) := by
  intro e mem claim read
  obtain ⟨mem, below⟩ := List.mem_filter.1 mem
  rcases (Store.mem_write asc).1 mem with rfl | ⟨old, _⟩
  · rw [(ofEntry_slot slot read).2]
    exact slot
  · exact canonical e (List.mem_filter.2 ⟨old, below⟩) claim read

theorem claims_write (asc : Store.Ascending s.entries) {key : String} {r : AddressRange}
    (slot : c.layout.rangeKeyFor pool r = some key) {claim : RangeClaim}
    (mem : claim ∈ c.claims pool (s.write key c.ours)) :
    claim ∈ c.claims pool s ∨ claim = ⟨pool, r, c.identity⟩ := by
  obtain ⟨e, mem, below, read⟩ := mem_claims.1 mem
  rcases (Store.mem_write asc).1 mem with rfl | ⟨old, _⟩
  · right
    obtain ⟨name, range⟩ := ofEntry_slot slot read
    obtain ⟨_, record, value, owner⟩ := RangeClaim.ofEntry_eq_ok.1 read
    cases (ClaimRecord.decode?_encode (.ofOwner c.identity)).symm.trans value
    cases claim
    cases name
    cases range
    cases owner
    rfl
  · exact .inl (mem_claims.2 ⟨e, old, below, read⟩)

/-- Where an entry is gone, the claim that stood there is gone. -/
theorem Canonical.gone (canonical : c.Canonical pool s) {claim : RangeClaim} {key : String}
    (slot : c.layout.rangeKeyFor pool claim.range = some key) (gone : ∀ e ∈ s.entries, e.key ≠ key) :
    claim ∉ c.claims pool s := by
  intro mem
  obtain ⟨e, mem, below, read⟩ := mem_claims.1 mem
  have own := canonical e (List.mem_filter.2 ⟨mem, below⟩) claim read
  exact gone e mem (Option.some.inj (own.symm.trans slot))

/-- Claims that share an address are one claim. -/
theorem claim_eq (disjoint : Apart ((c.claims pool s).map (·.range))) {a b : RangeClaim}
    (ha : a ∈ c.claims pool s) (hb : b ∈ c.claims pool s) (shared : a.range.overlaps b.range = true) :
    a = b := by
  have both : Std.Symm fun a b : RangeClaim => a.range.overlaps b.range = false :=
    ⟨fun a b clear => by rw [AddressRange.overlaps_comm]; exact clear⟩
  by_contra other
  have clear := (List.pairwise_map.1 disjoint).forall ha hb other
  rw [clear] at shared
  cases shared

end Reconciler

/-- A desk where requests may fail, and those that have failed. -/
structure FailingDesk extends Desk where
  failed : List Request

namespace FailingDesk

/-- The requests that have failed, once this one has been answered. -/
def noting {ε β : Type} (s : FailingDesk) (r : Request) : Except ε β → List Request
  | .ok _ => s.failed
  | .error _ => r :: s.failed

/-- The answer to a request of a node that works alone. -/
def Answers (cache : RangeCache) (pool : String) (s : FailingDesk) :
    (r : Request) → r.Answer → FailingDesk → Prop
  | .store r, x, t =>
    (s.store.serve r = (some x, t.store) ∨ (∃ e, x = .error e) ∧ t.store = s.store) ∧
      t.files = s.files ∧ t.failed = s.noting (.store r) x
  | .cache r, x, t =>
    (cache.serve s.files r = (x, t.files) ∧ (Cluster.Writes r → ¬ RangeCache.Faulty x) ∨
        (∃ e, x = .error e) ∧ cache.Unharmed pool s.files t.files) ∧
      t.store = s.store ∧ t.failed = s.noting (.cache r) x
  | _, _, _ => False

/-- The answer where requests of a kind fail, and files that cannot be written are never answered. -/
def reply (cache : RangeCache) (fails : Request → Bool) (s : FailingDesk) :
    (r : Request) → Option (r.Answer × FailingDesk)
  | .store r =>
    if fails (.store r) then
      some (.error (.unavailable "down"), { s with failed := .store r :: s.failed })
    else (s.store.serve r).1.map fun x =>
      (x, { s with store := (s.store.serve r).2, failed := s.noting (.store r) x })
  | .cache r =>
    let x := cache.serve s.files r
    if fails (.cache r) then
      some (.error (.cache cache.dataDir (.file .notFound)), { s with failed := .cache r :: s.failed })
    else if RangeCache.isFaulty x.1 then none
    else some (x.1, { s with files := x.2, failed := s.noting (.cache r) x.1 })
  | _ => none

/-- What holds of a desk throughout a pass. -/
structure Sane (c : Reconciler) (cache : RangeCache) (pool : String) (s : FailingDesk) : Prop where
  ascending : Store.Ascending s.store.entries
  canonical : c.Canonical pool s.store
  rooted : s.files.Rooted
  readable : cache.Readable s.files pool
  apart : Apart (cache.kept s.files pool)

def terms (c : Reconciler) (cache : RangeCache) (pool : String) : Terms FailingDesk where
  answers := Answers cache pool
  valid := Sane c cache pool
  rely := Eq
  guarantee _ _ _ := True
  refl _ := rfl
  trans := Eq.trans

variable {c : Reconciler} {cache : RangeCache} {pool : String} {s t : FailingDesk}

theorem reply_answers {fails : Request → Bool} {r : Request} {x : r.Answer}
    (answered : reply cache fails s r = some (x, t)) : Answers cache pool s r x t := by
  unfold reply at answered
  split at answered
  · rename_i r
    split at answered
    · cases answered
      exact ⟨.inr ⟨⟨_, rfl⟩, rfl⟩, rfl, rfl⟩
    · obtain ⟨y, served, same⟩ := Option.map_eq_some_iff.1 answered
      cases same
      exact ⟨.inl (Prod.ext served rfl), rfl, rfl⟩
  · rename_i r
    split at answered
    · cases answered
      exact ⟨.inr ⟨⟨_, rfl⟩, .refl cache pool s.files⟩, rfl, rfl⟩
    · dsimp only at answered
      split at answered
      · cases answered
      · rename_i fine
        cases answered
        exact ⟨.inl ⟨rfl, fun _ faulty => fine (RangeCache.isFaulty_iff.2 faulty)⟩, rfl, rfl⟩
  · cases answered

theorem mem_noting {ε β : Type} {r q : Request} (x : Except ε β) (mem : q ∈ s.failed) :
    q ∈ s.noting r x := by
  cases x with
  | ok a => exact mem
  | error e => exact List.mem_cons_of_mem r mem

/-- What has failed has failed. -/
theorem Answers.more {r : Request} {x : r.Answer} (answer : Answers cache pool s r x t) :
    s.failed ⊆ t.failed := by
  intro q mem
  cases r with
  | store r =>
    rw [answer.2.2]
    exact mem_noting x mem
  | cache r =>
    rw [answer.2.2]
    exact mem_noting x mem
  | chore | now | instant | sleep | pick | isLive | apply => exact answer.elim

theorem Answers.store_failed {r : StoreRequest} {e : StoreError}
    (answer : Answers cache pool s (.store r) (.error e) t) : .store r ∈ t.failed := by
  rw [answer.2.2]
  exact List.mem_cons_self

theorem Answers.cache_failed {r : CacheRequest} {e : Failure}
    (answer : Answers cache pool s (.cache r) (.error e) t) : .cache r ∈ t.failed := by
  rw [answer.2.2]
  exact List.mem_cons_self

/-! What a request to the store does. -/

theorem Answers.fewer {r : StoreRequest} {x : Except StoreError r.Result}
    (answer : Answers cache pool s (.store r) x t) (adds : r.adds = false) :
    ∀ e ∈ t.store.entries, e ∈ s.store.entries := by
  intro e mem
  rcases answer.1 with served | ⟨_, same⟩
  · have after : (s.store.serve r).2 = t.store := congrArg Prod.snd served
    rw [← after] at mem
    exact Store.mem_of_mem_serve adds mem
  · exact same ▸ mem

theorem Answers.same {r : StoreRequest} {x : Except StoreError r.Result}
    (answer : Answers cache pool s (.store r) x t) (adds : r.adds = false) (removes : r.removes = false) :
    t.store.entries = s.store.entries := by
  rcases answer.1 with served | ⟨_, same⟩
  · have after : (s.store.serve r).2 = t.store := congrArg Prod.snd served
    rw [← after]
    rcases s.store.serve_cases r with same | ⟨_, _, ⟨rfl, _⟩ | rfl, _⟩ | ⟨_, rfl | rfl, _⟩
    · exact same.entries
    · cases adds
    · cases adds
    · cases removes
    · cases removes
  · rw [same]

theorem Answers.ascending {r : StoreRequest} {x : Except StoreError r.Result}
    (answer : Answers cache pool s (.store r) x t) (asc : Store.Ascending s.store.entries) :
    Store.Ascending t.store.entries := by
  rcases answer.1 with served | ⟨_, same⟩
  · have after : (s.store.serve r).2 = t.store := congrArg Prod.snd served
    rw [← after]
    exact Store.serve_ascending asc r
  · exact same ▸ asc

theorem Sane.stored (sane : Sane c cache pool s) {r : StoreRequest} {x : Except StoreError r.Result}
    (answer : Answers cache pool s (.store r) x t) (canonical : c.Canonical pool t.store) :
    Sane c cache pool t := by
  obtain ⟨_, files, _⟩ := id answer
  constructor
  · exact answer.ascending sane.ascending
  · exact canonical
  · exact files ▸ sane.rooted
  · exact files ▸ sane.readable
  · exact files ▸ sane.apart

theorem Sane.asked (sane : Sane c cache pool s) {r : StoreRequest} {x : Except StoreError r.Result}
    (answer : Answers cache pool s (.store r) x t) (adds : r.adds = false) : Sane c cache pool t :=
  sane.stored answer (sane.canonical.fewer (answer.fewer adds))

theorem Answers.entries {start : String} {found : Snapshot} (asc : Store.Ascending s.store.entries)
    (answer : Answers cache pool s (.store (.range start)) (.ok found) t) :
    t.store = s.store ∧ found.entries = s.store.entries.filter (startsWith ·.key start) := by
  rcases answer.1 with served | ⟨⟨_, failed⟩, _⟩
  · exact ⟨(congrArg Prod.snd served).symm, Store.range_found asc (congrArg Prod.fst served)⟩
  · cases failed

/-- A key that has been deleted is gone. -/
theorem Answers.deleted {key : String} {gone : Bool}
    (answer : Answers cache pool s (.store (.delete key)) (.ok gone) t) :
    ∀ e ∈ t.store.entries, e.key ≠ key := by
  intro e mem
  rcases answer.1 with served | ⟨⟨_, failed⟩, _⟩
  · obtain ⟨done, after⟩ : (s.store.delete key).1 = .ok gone ∧ (s.store.delete key).2 = t.store :=
      ⟨Option.some.inj (congrArg Prod.fst served), congrArg Prod.snd served⟩
    have available : s.store.available = true := by
      by_contra down
      have refused : s.store.reachable = .error (.unavailable "memory store marked unavailable") :=
        if_neg down
      unfold Store.delete at done
      rw [refused] at done
      cases done
    exact Store.ne_of_mem_delete available (after ▸ mem)
  · cases failed

/-- A key is written if it was free, or the entries are as they were. -/
theorem Answers.created {key : String} {value : Bytes} {x : Except StoreError Creation}
    (answer : Answers cache pool s (.store (.create key value)) x t) :
    t.store.entries = s.store.entries ∨ (x ≠ .ok .alreadyExists ∧ t.store = s.store.write key value) := by
  rcases answer.1 with served | ⟨_, same⟩
  · have after : (s.store.serve (.create key value)).2 = t.store := congrArg Prod.snd served
    rcases Store.serve_wrote (congrArg Prod.fst served) with
      ⟨_, same⟩ | ⟨k, v, wrote, ⟨made, _⟩ | made, written⟩ | ⟨e, _, made | made, _⟩
    · exact .inl (after ▸ same.entries)
    · cases made
      refine .inr ⟨?_, after.symm.trans written⟩
      rintro rfl
      cases wrote
    · cases made
    · cases made
    · cases made
  · exact .inl (congrArg (·.entries) same)

/-! What an operation on the files does. -/

theorem Sane.filed (sane : Sane c cache pool s) {r : CacheRequest} {x : Except Failure r.Result}
    (answer : Answers cache pool s (.cache r) x t) (rooted : t.files.Rooted)
    (readable : cache.Readable t.files pool) (apart : Apart (cache.kept t.files pool)) :
    Sane c cache pool t := by
  obtain ⟨_, store, _⟩ := answer
  exact ⟨store ▸ sane.ascending, store ▸ sane.canonical, rooted, readable, apart⟩

theorem Sane.unharmed (sane : Sane c cache pool s) {r : CacheRequest} {x : Except Failure r.Result}
    (answer : Answers cache pool s (.cache r) x t) (unharmed : cache.Unharmed pool s.files t.files) :
    Sane c cache pool t :=
  sane.filed answer (unharmed.rooted sane.rooted) (unharmed.readable sane.readable)
    (unharmed.kept.symm ▸ sane.apart)

theorem Sane.loaded (sane : Sane c cache pool s) {x : Except Failure (List AddressRange)}
    (answer : Answers cache pool s (.cache (.load pool)) x t) :
    Sane c cache pool t ∧ cache.kept t.files pool = cache.kept s.files pool ∧
      ∀ ranges, x = .ok ranges → ranges = cache.kept s.files pool := by
  rcases id answer.1 with ⟨served, _⟩ | ⟨⟨e, failed⟩, unharmed⟩
  · obtain ⟨load, files⟩ : cache.load s.files pool = x ∧ s.files = t.files :=
      ⟨congrArg Prod.fst served, congrArg Prod.snd served⟩
    have unharmed : cache.Unharmed pool s.files t.files := files ▸ .refl cache pool s.files
    refine ⟨sane.unharmed answer unharmed, unharmed.kept, ?_⟩
    rintro ranges rfl
    exact sane.readable ranges load
  · refine ⟨sane.unharmed answer unharmed, unharmed.kept, ?_⟩
    rintro ranges rfl
    cases failed

/-- A range is put on file where it overlaps nothing, or the file is as it was. -/
theorem Sane.appended (sane : Sane c cache pool s) {r : AddressRange} {x : Except Failure Unit}
    (answer : Answers cache pool s (.cache (.append pool r)) x t) : Sane c cache pool t ∧
      ((x = .ok () ∧ cache.kept t.files pool = cache.kept s.files pool ++ [r]) ∨
        ((∃ e, x = .error e) ∧ cache.kept t.files pool = cache.kept s.files pool)) := by
  rcases id answer.1 with ⟨served, fine⟩ | ⟨failed, unharmed⟩
  · obtain ⟨rooted, readable, ⟨done, free, kept⟩ | ⟨⟨path, cached, failed, _⟩, kept⟩⟩ :=
      RangeCache.append_cases sane.rooted served (fine trivial)
    · exact ⟨sane.filed answer rooted readable (kept ▸ sane.apart.append free), .inl ⟨done, kept⟩⟩
    · exact ⟨sane.filed answer rooted readable (kept ▸ sane.apart), .inr ⟨⟨_, failed⟩, kept⟩⟩
  · exact ⟨sane.unharmed answer unharmed, .inr ⟨failed, unharmed.kept⟩⟩

/-- A range that is on file is taken off it and no other one, unless the removal has failed. -/
structure Removed (c : Reconciler) (cache : RangeCache) (pool : String) (r : AddressRange)
    (s t : FailingDesk) : Prop where
  sane : Sane c cache pool t
  store : t.store = s.store
  more : s.failed ⊆ t.failed
  fewer : ∀ q ∈ cache.kept t.files pool, q ∈ cache.kept s.files pool
  others : ∀ q ∈ cache.kept s.files pool, q ≠ r → q ∈ cache.kept t.files pool
  stuck : r ∈ cache.kept t.files pool → .cache (.delete pool r) ∈ t.failed

theorem Sane.removed (sane : Sane c cache pool s) {r : AddressRange}
    (here : r ∈ cache.kept s.files pool) {x : Except Failure (Option AddressRange)}
    (answer : Answers cache pool s (.cache (.delete pool r)) x t) : Removed c cache pool r s t := by
  rcases id answer.1 with ⟨served, fine⟩ | ⟨⟨e, rfl⟩, unharmed⟩
  · obtain ⟨rooted, readable, _, kept⟩ := RangeCache.delete_eq sane.rooted served (fine trivial)
    have left (q) : q ∈ cache.kept t.files pool ↔ q ∈ cache.kept s.files pool ∧ q ≠ r := by
      rw [kept]
      exact sane.apart.mem_without here
    constructor
    · exact sane.filed answer rooted readable (kept ▸ sane.apart.without r)
    · exact answer.2.1
    · exact answer.more
    · exact fun q mem => ((left q).1 mem).1
    · exact fun q mem other => (left q).2 ⟨mem, other⟩
    · exact fun mem => absurd rfl ((left r).1 mem).2
  · constructor
    · exact sane.unharmed answer unharmed
    · exact answer.2.1
    · exact answer.more
    · exact fun q mem => unharmed.kept ▸ mem
    · exact fun q mem _ => unharmed.kept ▸ mem
    · exact fun _ => answer.cache_failed

end FailingDesk

end NetPool
