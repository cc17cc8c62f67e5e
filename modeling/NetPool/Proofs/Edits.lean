import NetPool.Proofs.Block.Cluster

/-! The file of a pool as a list of ranges. Whatever text it begins with, calls that add and take away
ranges act on the list that the text reads as, however many of their rewrites fail. -/

namespace NetPool.RangeCache

open FileTree

/-- How a rewrite goes. One that fails may have written something beside the file by then. -/
inductive Luck
  | works
  | fails (e : Failure) (beside : Option Bytes)

/-- The files with what a rewrite has written beside the file of a pool. -/
def littered (c : RangeCache) (t : FileTree) (pool : String) : Option Bytes → FileTree
  | none => t
  | some content => (t.write (c.spare pool) content).toOption.getD t

def Luck.rewrite (l : Luck) (c : RangeCache) (t : FileTree) (pool : String)
    (ranges : List AddressRange) : Except Failure Unit × FileTree :=
  match l with
  | .works => c.rewrite t pool ranges
  | .fails e beside => (.error e, c.littered t pool beside)

/-- A call to add a range, with a rewrite that goes like this. -/
def Luck.append (l : Luck) (c : RangeCache) (t : FileTree) (pool : String) (r : AddressRange) :
    Except Failure Unit × FileTree :=
  match l with
  | .works => c.append t pool r
  | .fails _ _ => c.appendBy (l.rewrite c) t pool r

def Luck.delete (l : Luck) (c : RangeCache) (t : FileTree) (pool : String) (r : AddressRange) :
    Except Failure (Option AddressRange) × FileTree :=
  match l with
  | .works => c.delete t pool r
  | .fails _ _ => c.deleteBy (l.rewrite c) t pool r

theorem Luck.append_eq (l : Luck) (c : RangeCache) (t : FileTree) (pool : String) (r : AddressRange) :
    l.append c t pool r = c.appendBy (l.rewrite c) t pool r := by
  cases l <;> rfl

theorem Luck.delete_eq (l : Luck) (c : RangeCache) (t : FileTree) (pool : String) (r : AddressRange) :
    l.delete c t pool r = c.deleteBy (l.rewrite c) t pool r := by
  cases l <;> rfl

inductive Edit
  | append (r : AddressRange)
  | delete (r : AddressRange)

/-- The files after some calls, each with the luck of its rewrite. -/
def edited (c : RangeCache) (pool : String) (t : FileTree) (calls : List (Luck × Edit)) : FileTree :=
  calls.foldl (fun t call =>
    match call with
    | (l, .append r) => (l.append c t pool r).2
    | (l, .delete r) => (l.delete c t pool r).2) t

variable {c : RangeCache} {t u : FileTree} {pool : String} {p : Place} {r : AddressRange}
  {ranges new : List AddressRange} {l : Luck}

/-- The lock of a pool is taken, and its file reads as these ranges. -/
structure Taken (c : RangeCache) (pool : String) (t : FileTree) (p : Place)
    (ranges : List AddressRange) : Prop where
  settled : Settled c pool t p
  rooted : t.Rooted
  reads : c.Reads t pool ranges

/-- The lock of a pool can be taken, and its file reads as these ranges. -/
structure Open (c : RangeCache) (pool : String) (t : FileTree) (ranges : List AddressRange) : Prop where
  rooted : t.Rooted
  locks : (c.lock t pool).1 = .ok ()
  reads : c.Reads t pool ranges

theorem Open.taken (opened : Open c pool t ranges) :
    (c.lock t pool) = (.ok (), (c.lock t pool).2) ∧ ∃ p, Taken c pool (c.lock t pool).2 p ranges := by
  have locked : c.lock t pool = (.ok (), (c.lock t pool).2) := Prod.ext opened.locks rfl
  obtain ⟨keeps, p, settled⟩ := lock_eq_ok locked
  exact ⟨locked, p, settled, keeps.rooted opened.rooted, opened.reads.lock⟩

theorem Taken.opened (taken : Taken c pool t p ranges) : Open c pool t ranges :=
  ⟨taken.rooted, congrArg Prod.fst taken.settled.lock, taken.reads⟩

/-! One rewrite. -/

theorem littered_cases (c : RangeCache) (t : FileTree) (pool : String) (beside : Option Bytes) :
    c.littered t pool beside = t ∨
      ∃ content, t.write (c.spare pool) content = .ok (c.littered t pool beside) := by
  cases beside with
  | none => exact .inl rfl
  | some content =>
    unfold littered
    dsimp only
    cases written : t.write (c.spare pool) content with
    | error f => exact .inl rfl
    | ok u => exact .inr ⟨content, written⟩

theorem rewrite_cases (c : RangeCache) (t : FileTree) (pool : String) (ranges : List AddressRange) :
    (c.rewrite t pool ranges).1 = .ok () ∨ ∃ e, (c.rewrite t pool ranges).1 = .error e ∧
      ((c.rewrite t pool ranges).2 = t ∨
        ∃ content, t.write (c.spare pool) content = .ok (c.rewrite t pool ranges).2) := by
  unfold RangeCache.rewrite
  split
  · exact .inr ⟨_, rfl, .inl rfl⟩
  · rename_i written
    split
    · exact .inr ⟨_, rfl, .inr ⟨_, written⟩⟩
    · exact .inl rfl

theorem Taken.beside (taken : Taken c pool t p ranges) {content : Bytes}
    (written : t.write (c.spare pool) content = .ok u) : Taken c pool u p ranges := by
  obtain ⟨_, q, leads, free, rfl⟩ := (write_inside plain_spare).1 written
  cases taken.settled.leads.eq leads
  have keeps := set_keeps (e := .file content) free
  obtain ⟨⟨_, fine, lock, locked⟩, rooted, text, read, same⟩ := taken
  refine ⟨⟨leads.keeps keeps, fine, lock, ?_⟩, keeps.rooted rooted, text, ?_, same⟩
  · rw [entry?_set_inside, if_neg (by decide)]
    exact locked
  · exact readText_beside leads (by decide) free read

theorem Taken.rewritten (taken : Taken c pool t p ranges) (done : c.rewrite t pool new = (.ok (), u)) :
    Taken c pool u p new := by
  obtain ⟨settled, rooted, _⟩ := taken.settled.rewrite taken.rooted done
  obtain ⟨clear, rfl⟩ := taken.settled.rewrite_iff.1 done
  refine ⟨settled, rooted, reads_render settled.leads clear.path ?_⟩
  rw [entry?_replaced, if_neg (by decide), if_pos rfl]

/-- A rewrite puts other ranges on file, or fails and leaves those that are there. -/
theorem Taken.rewrite (taken : Taken c pool t p ranges) (l : Luck) (new : List AddressRange) :
    ((l.rewrite c t pool new).1 = .ok () ∧ Taken c pool (l.rewrite c t pool new).2 p new) ∨
      ∃ e, (l.rewrite c t pool new).1 = .error e ∧
        Taken c pool (l.rewrite c t pool new).2 p ranges := by
  have kept {u : FileTree} (h : u = t ∨ ∃ content, t.write (c.spare pool) content = .ok u) :
      Taken c pool u p ranges := by
    rcases h with rfl | ⟨content, written⟩
    · exact taken
    · exact taken.beside written
  cases l with
  | fails e beside => exact .inr ⟨e, rfl, kept (c.littered_cases t pool beside)⟩
  | works =>
    unfold Luck.rewrite
    rcases c.rewrite_cases t pool new with done | ⟨e, failed, left⟩
    · exact .inl ⟨done, taken.rewritten (Prod.ext done rfl)⟩
    · exact .inr ⟨e, failed, kept left⟩

/-! One call. -/

theorem Open.append_eq (opened : Open c pool t ranges) (l : Luck) (r : AddressRange) :
    l.append c t pool r =
      match Cache.overlapping? r ranges with
      | some cached => (.error (.cache (c.path pool) (.overlap r cached)), (c.lock t pool).2)
      | none => l.rewrite c (c.lock t pool).2 pool (ranges ++ [r]) := by
  rw [Luck.append_eq, appendBy, opened.taken.1]
  have loaded := opened.reads.lock.load
  cases found : Cache.overlapping? r ranges with
  | none => simp only [loaded, found]
  | some cached => simp only [loaded, found]

theorem Open.delete_eq (opened : Open c pool t ranges) (l : Luck) (r : AddressRange) :
    l.delete c t pool r =
      match Cache.overlapping? r ranges with
      | none => (.ok none, (c.lock t pool).2)
      | some found =>
        ((l.rewrite c (c.lock t pool).2 pool (Cache.without r ranges)).1.map fun _ => some found,
          (l.rewrite c (c.lock t pool).2 pool (Cache.without r ranges)).2) := by
  rw [Luck.delete_eq, deleteBy, opened.taken.1]
  have loaded := opened.reads.lock.load
  cases found : Cache.overlapping? r ranges with
  | none => simp only [loaded, found]
  | some cached => simp only [loaded, found]

theorem without_first {before : List AddressRange} (after : List AddressRange) {found : AddressRange}
    (clear : ∀ q ∈ before, q.overlaps r = false) (overlaps : found.overlaps r = true) :
    Cache.overlapping? r (before ++ found :: after) = some found ∧
      Cache.without r (before ++ found :: after) = before ++ after := by
  constructor
  · exact List.find?_eq_some_iff_append.2
      ⟨overlaps, before, after, rfl, fun q mem => by rw [clear q mem]; rfl⟩
  · have rest : (found :: after).eraseP (·.overlaps r) = after := List.eraseP_cons_of_pos overlaps
    rw [Cache.without, List.eraseP_append_right _ fun q mem => ne_true_of_eq_false (clear q mem), rest]

theorem overlapping?_none :
    Cache.overlapping? r ranges = none ↔ ∀ q ∈ ranges, q.overlaps r = false := by
  simp only [Cache.overlapping?, List.find?_eq_none, Bool.not_eq_true]

/-- A call to add a range adds it, or leaves the ranges that there are. -/
theorem Open.append (opened : Open c pool t ranges) (l : Luck) (r : AddressRange) :
    ((l.append c t pool r).1 = .ok () ∧ (∀ q ∈ ranges, q.overlaps r = false) ∧
        (l.rewrite c (c.lock t pool).2 pool (ranges ++ [r])).1 = .ok () ∧
        Open c pool (l.append c t pool r).2 (ranges ++ [r])) ∨
      (∃ e, (l.append c t pool r).1 = .error e) ∧
        ((∃ cached, Cache.overlapping? r ranges = some cached ∧
            (l.append c t pool r).1 = .error (.cache (c.path pool) (.overlap r cached))) ∨
          (l.rewrite c (c.lock t pool).2 pool (ranges ++ [r])).1 ≠ .ok ()) ∧
        Open c pool (l.append c t pool r).2 ranges := by
  obtain ⟨_, p, taken⟩ := opened.taken
  rw [opened.append_eq]
  cases found : Cache.overlapping? r ranges with
  | some cached => exact .inr ⟨⟨_, rfl⟩, .inl ⟨cached, rfl, rfl⟩, taken.opened⟩
  | none =>
    dsimp only
    rcases taken.rewrite l (ranges ++ [r]) with ⟨done, after⟩ | ⟨e, failed, after⟩
    · exact .inl ⟨done, overlapping?_none.1 found, done, after.opened⟩
    · refine .inr ⟨⟨e, failed⟩, .inr ?_, after.opened⟩
      rw [failed]
      nofun

theorem Open.delete_none (opened : Open c pool t ranges) (l : Luck)
    (clear : ∀ q ∈ ranges, q.overlaps r = false) :
    (l.delete c t pool r).1 = .ok none ∧ Open c pool (l.delete c t pool r).2 ranges := by
  obtain ⟨_, p, taken⟩ := opened.taken
  rw [opened.delete_eq, overlapping?_none.2 clear]
  exact ⟨rfl, taken.opened⟩

/-- A call to take a range away takes the first one that overlaps it, or leaves them all. -/
theorem Open.delete_some {before after : List AddressRange} {found : AddressRange}
    (opened : Open c pool t (before ++ found :: after)) (l : Luck)
    (clear : ∀ q ∈ before, q.overlaps r = false) (overlaps : found.overlaps r = true) :
    ((l.delete c t pool r).1 = .ok (some found) ∧
        (l.rewrite c (c.lock t pool).2 pool (before ++ after)).1 = .ok () ∧
        Open c pool (l.delete c t pool r).2 (before ++ after)) ∨
      (∃ e, (l.delete c t pool r).1 = .error e ∧
          (l.rewrite c (c.lock t pool).2 pool (before ++ after)).1 = .error e) ∧
        Open c pool (l.delete c t pool r).2 (before ++ found :: after) := by
  obtain ⟨_, p, taken⟩ := opened.taken
  obtain ⟨first, rest⟩ := without_first after clear overlaps
  rw [opened.delete_eq, first]
  dsimp only
  rw [rest]
  rcases taken.rewrite l (before ++ after) with ⟨done, left⟩ | ⟨e, failed, left⟩
  · rw [done]
    exact .inl ⟨rfl, rfl, left.opened⟩
  · rw [failed]
    exact .inr ⟨⟨e, rfl, rfl⟩, left.opened⟩

/-! A run of calls. -/

/-- What calls do while these are the ranges on file. -/
structure Follows (c : RangeCache) (pool : String) (t : FileTree) (ranges : List AddressRange) :
    Prop where
  loads : c.load t pool = .ok ranges
  append_iff (l : Luck) (r : AddressRange) : (l.append c t pool r).1 = .ok () ↔
    (∀ q ∈ ranges, q.overlaps r = false) ∧
      (l.rewrite c (c.lock t pool).2 pool (ranges ++ [r])).1 = .ok ()
  appended (l : Luck) (r : AddressRange) : (l.append c t pool r).1 = .ok () →
    c.load (l.append c t pool r).2 pool = .ok (ranges ++ [r])
  append_failed (l : Luck) (r : AddressRange) : (l.append c t pool r).1 ≠ .ok () →
    c.load (l.append c t pool r).2 pool = .ok ranges
  delete_none (l : Luck) (r : AddressRange) : (∀ q ∈ ranges, q.overlaps r = false) →
    (l.delete c t pool r).1 = .ok none ∧ c.load (l.delete c t pool r).2 pool = .ok ranges
  /-- The first range that overlaps goes, unless the rewrite fails. -/
  delete_first (l : Luck) (r : AddressRange) (before : List AddressRange) (found : AddressRange)
    (after : List AddressRange) : ranges = before ++ found :: after →
    (∀ q ∈ before, q.overlaps r = false) → found.overlaps r = true →
    ((l.rewrite c (c.lock t pool).2 pool (before ++ after)).1 = .ok () ∧
        (l.delete c t pool r).1 = .ok (some found) ∧
        c.load (l.delete c t pool r).2 pool = .ok (before ++ after)) ∨
      ∃ e, (l.rewrite c (c.lock t pool).2 pool (before ++ after)).1 = .error e ∧
        (l.delete c t pool r).1 = .error e ∧ c.load (l.delete c t pool r).2 pool = .ok ranges
  rewritten (l : Luck) (new : List AddressRange) :
    (l.rewrite c (c.lock t pool).2 pool new).1 = .ok () →
      c.load (l.rewrite c (c.lock t pool).2 pool new).2 pool = .ok new

theorem Open.follows (opened : Open c pool t ranges) : Follows c pool t ranges where
  loads := opened.reads.load
  append_iff l r := by
    rcases opened.append l r with ⟨done, clear, written, _⟩ | ⟨⟨e, failed⟩, trouble, _⟩
    · exact iff_of_true done ⟨clear, written⟩
    · refine iff_of_false (by rw [failed]; nofun) fun ⟨clear, written⟩ => ?_
      rcases trouble with ⟨cached, found, _⟩ | unwritten
      · rw [overlapping?_none.2 clear] at found
        cases found
      · exact unwritten written
  appended l r done := by
    rcases opened.append l r with ⟨_, _, _, after⟩ | ⟨⟨e, failed⟩, _⟩
    · exact after.reads.load
    · rw [failed] at done
      cases done
  append_failed l r other := by
    rcases opened.append l r with ⟨done, _⟩ | ⟨_, _, after⟩
    · exact absurd done other
    · exact after.reads.load
  delete_none l r clear := by
    obtain ⟨answer, after⟩ := opened.delete_none l clear
    exact ⟨answer, after.reads.load⟩
  delete_first l r before found after same clear overlaps := by
    subst same
    rcases opened.delete_some l clear overlaps with ⟨answer, written, left⟩ | ⟨⟨e, answer, failed⟩, left⟩
    · exact .inl ⟨written, answer, left.reads.load⟩
    · exact .inr ⟨e, failed, answer, left.reads.load⟩
  rewritten l new done := by
    obtain ⟨_, p, taken⟩ := opened.taken
    rcases taken.rewrite l new with ⟨_, after⟩ | ⟨e, failed, _⟩
    · exact after.reads.load
    · rw [failed] at done
      cases done

/-- The ranges after a call: as before, with one more that overlaps none, or with one less. -/
theorem Open.edited (opened : Open c pool t ranges) (l : Luck) (edit : Edit) :
    ∃ now, Open c pool (c.edited pool t [(l, edit)]) now ∧ (Apart ranges → Apart now) := by
  cases edit with
  | append r =>
    rcases opened.append l r with ⟨_, clear, _, after⟩ | ⟨_, _, after⟩
    · exact ⟨_, after, fun apart => apart.append (overlapping?_none.2 clear)⟩
    · exact ⟨_, after, id⟩
  | delete r =>
    cases found : Cache.overlapping? r ranges with
    | none => exact ⟨_, (opened.delete_none l (overlapping?_none.1 found)).2, id⟩
    | some first =>
      obtain ⟨overlaps, before, after, rfl, clear⟩ := List.find?_eq_some_iff_append.1 found
      rcases opened.delete_some l (fun q mem => by simpa using clear q mem) overlaps with
        ⟨_, _, left⟩ | ⟨_, left⟩
      · exact ⟨_, left, fun apart => List.Pairwise.sublist (by simp) apart⟩
      · exact ⟨_, left, id⟩

theorem Open.run (opened : Open c pool t ranges) (calls : List (Luck × Edit)) :
    ∃ now, Open c pool (c.edited pool t calls) now ∧ (Apart ranges → Apart now) := by
  induction calls generalizing t ranges with
  | nil => exact ⟨ranges, opened, id⟩
  | cons call calls ih =>
    obtain ⟨next, opened, apart⟩ := opened.edited call.1 call.2
    obtain ⟨now, opened, apart'⟩ := ih opened
    exact ⟨now, opened, apart' ∘ apart⟩

/-- Whatever a file holds and whatever calls come, with whatever luck, the ranges on file are a list that
begins as the text reads, and that each call changes as it should. -/
theorem edits_follow {content : String} (rooted : t.Rooted)
    (text : t.readText (c.path pool) = .ok content) (locks : (c.lock t pool).1 = .ok ()) :
    Follows c pool t (Cache.entries content) ∧
      ∀ calls : List (Luck × Edit), ∃ ranges, Follows c pool (c.edited pool t calls) ranges ∧
        (Apart (Cache.entries content) → Apart ranges) := by
  have opened : Open c pool t (Cache.entries content) := ⟨rooted, locks, content, text, rfl⟩
  refine ⟨opened.follows, fun calls => ?_⟩
  obtain ⟨ranges, opened, apart⟩ := opened.run calls
  exact ⟨ranges, opened.follows, apart⟩

/-- Two ranges among lines that hold none. -/
def scrawl : String :=
  "10.0.0.0-10.0.0.3\n\nten to eleven\n 10.0.0.8 - 10.0.0.11\n10.0.0.9-10.0.0.4"

def scrawled : FileTree where
  entries := [(["a"], .directory), (["a", "blue"], .directory),
    (["a", "blue", "rangeset_cache"], .file (Text.utf8 scrawl))]
  home := []

theorem scrawled_follows : scrawled.Rooted ∧
    scrawled.readText (RangeCache.path ⟨"/a"⟩ "blue") = .ok scrawl ∧
    (RangeCache.lock ⟨"/a"⟩ scrawled "blue").1 = .ok () ∧
    Follows ⟨"/a"⟩ "blue" scrawled
      [.span 0x0A000000 0x0A000003, .span 0x0A000008 0x0A00000B] ∧
    (∀ calls, ∃ ranges, Follows ⟨"/a"⟩ "blue" (edited ⟨"/a"⟩ "blue" scrawled calls) ranges ∧
      Apart ranges) ∧
    let added := RangeCache.append ⟨"/a"⟩ scrawled "blue" (.span 0x0A000004 0x0A000007)
    added.1 = .ok () ∧ RangeCache.load ⟨"/a"⟩ added.2 "blue" =
      .ok [.span 0x0A000000 0x0A000003, .span 0x0A000008 0x0A00000B, .span 0x0A000004 0x0A000007] := by
  have rooted : scrawled.Rooted := by
    intro p home
    cases List.prefix_nil.1 home
    rfl
  have text : scrawled.readText (RangeCache.path ⟨"/a"⟩ "blue") = .ok scrawl := by rfl
  have locks : (RangeCache.lock ⟨"/a"⟩ scrawled "blue").1 = .ok () := by rfl
  have entries : Cache.entries scrawl =
      [.span 0x0A000000 0x0A000003, .span 0x0A000008 0x0A00000B] := by decide +kernel
  obtain ⟨follows, runs⟩ := edits_follow rooted text locks
  rw [entries] at follows
  have added : (RangeCache.append ⟨"/a"⟩ scrawled "blue" (.span 0x0A000004 0x0A000007)).1 = .ok () := by
    refine (follows.append_iff .works _).2 ⟨by decide, ?_⟩
    rfl
  refine ⟨rooted, text, locks, follows, fun calls => ?_, added, follows.appended .works _ added⟩
  obtain ⟨ranges, follows, apart⟩ := runs calls
  refine ⟨ranges, follows, apart ?_⟩
  rw [entries, Apart]
  decide +kernel

end NetPool.RangeCache
