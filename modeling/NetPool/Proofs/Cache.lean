import NetPool.Cache.Store
import NetPool.Proofs.Address
import NetPool.Proofs.Files

/-! The ranges on file. What a change writes is what is read back after it, and a range is only ever
added where it overlaps nothing. -/

namespace NetPool

open Text

namespace Cache

theorem not_mem_chars {c : Char} (other : ¬ c.isDigit = true) (dot : c ≠ '.') (dash : c ≠ '-')
    (r : AddressRange) : c ∉ r.chars := by
  intro mem
  rcases List.mem_append.1 mem with start | rest
  · exact Address.not_mem_chars other dot start
  · rcases List.mem_cons.1 rest with same | stop
    · exact dash same
    · exact Address.not_mem_chars other dot stop

theorem lines_render (ranges : List AddressRange) :
    lines (render ranges).toList = ranges.map (·.chars) := by
  have text : (render ranges).toList = (ranges.map (·.chars)).flatMap (· ++ ['\n']) := by
    rw [render, String.toList_ofList, List.flatMap_map]
  rw [text, lines_flatMap]
  · intro l mem
    obtain ⟨r, _, rfl⟩ := List.mem_map.1 mem
    exact not_mem_chars (by decide) (by decide) (by decide) r
  · intro l mem last
    obtain ⟨r, _, rfl⟩ := List.mem_map.1 mem
    exact not_mem_chars (by decide) (by decide) (by decide) r (List.mem_of_getLast? last)

theorem entries_render (ranges : List AddressRange) : entries (render ranges) = ranges := by
  have read (r : AddressRange) :
      (AddressRange.parse (String.ofList (trim r.chars))).toOption = some r := by
    rw [AddressRange.trim_chars, ← AddressRange.text, AddressRange.parse_text]
    rfl
  rw [entries, lines_render, List.filterMap_map]
  simp only [Function.comp_def, read, List.filterMap_some]

end Cache

namespace RangeCache

open FileTree

theorem plain_file : Plain fileName := by constructor <;> decide +kernel
theorem plain_lock : Plain ".lock" := by constructor <;> decide +kernel
theorem plain_spare : Plain (fileName ++ ".tmp") := by constructor <;> decide +kernel

variable {c : RangeCache} {t u : FileTree} {pool : String} {p : Place} {r : AddressRange}
  {ranges : List AddressRange}

/-- The directory of a pool is there, and the lock file in it. -/
structure Settled (c : RangeCache) (pool : String) (t : FileTree) (p : Place) : Prop where
  leads : t.Leads (c.poolPath pool) p
  fine : Fine (c.lockPath pool)
  locked : ∃ content, t.entry? (p ++ [".lock"]) = some (.file content)

theorem lock_eq_ok (locked : c.lock t pool = (.ok (), u)) :
    Keeps t u ∧ ∃ p, Settled c pool u p := by
  unfold lock at locked
  have keeps := makeDirectories_keeps t (c.poolPath pool)
  split at locked
  · cases locked
  · rename_i v made
    rw [made] at keeps
    split at locked
    · cases locked
    · rename_i w touched
      cases locked
      unfold touch at touched
      cases found : v.locate (c.lockPath pool) with
      | error f => rw [found] at touched; cases touched
      | ok q =>
        rw [found] at touched
        obtain ⟨fine, p, leads, rfl⟩ := (locate_inside plain_lock).1 found
        simp only [bind, Except.bind] at touched
        split at touched
        · cases touched
        · rename_i content entry
          cases touched
          exact ⟨keeps, p, leads, fine, content, entry⟩
        · rename_i entry
          cases touched
          have other : v.entry? (p ++ [".lock"]) ≠ some .directory := by rw [entry]; nofun
          have more := set_keeps (e := .file []) other
          refine ⟨keeps.trans more, p, leads.keeps more, fine, [], ?_⟩
          rw [entry?_set (ne_nil_of_entry other), if_pos rfl]

theorem Settled.lock (settled : Settled c pool t p) : c.lock t pool = (.ok (), t) := by
  obtain ⟨content, entry⟩ := settled.locked
  have found : t.locate (c.lockPath pool) = .ok (p ++ [".lock"]) :=
    (locate_inside plain_lock).2 ⟨settled.fine, p, settled.leads, rfl⟩
  have touched : t.touch (c.lockPath pool) = .ok t := by
    unfold touch
    rw [found]
    simp only [bind, Except.bind, entry]
    rfl
  unfold RangeCache.lock
  rw [settled.leads.makeDirectories settled.fine plain_lock]
  dsimp only
  rw [touched]

/-- The file of a pool holds a text with these ranges. -/
def Reads (c : RangeCache) (t : FileTree) (pool : String) (ranges : List AddressRange) : Prop :=
  ∃ content, t.readText (c.path pool) = .ok content ∧ Cache.entries content = ranges

theorem Reads.load (reads : c.Reads t pool ranges) : c.load t pool = .ok ranges := by
  obtain ⟨content, text, same⟩ := reads
  unfold RangeCache.load
  rw [text]
  exact congrArg Except.ok same

theorem reads_render (leads : t.Leads (c.poolPath pool) p) (fine : Fine (c.path pool))
    (entry : t.entry? (p ++ [fileName]) = some (.file (utf8 (Cache.render ranges)))) :
    c.Reads t pool ranges := by
  have bytes : t.read (c.path pool) = .ok (utf8 (Cache.render ranges)) := by
    rw [path, read_inside plain_file]
    exact ⟨fine, p, leads, entry⟩
  refine ⟨Cache.render ranges, ?_, Cache.entries_render ranges⟩
  rw [readText, bytes]
  simp only [bind, Except.bind, ofUtf8?_utf8]
  rfl

theorem load_render (leads : t.Leads (c.poolPath pool) p) (fine : Fine (c.path pool))
    (entry : t.entry? (p ++ [fileName]) = some (.file (utf8 (Cache.render ranges)))) :
    c.load t pool = .ok ranges := by
  have reads : c.Reads t pool ranges := reads_render leads fine entry
  exact reads.load

/-! A rewrite. -/

theorem rename_spare {content : Bytes} (fine : Fine (c.spare pool)) (leads : t.Leads (c.poolPath pool) p)
    (spare : t.entry? (p ++ [fileName ++ ".tmp"]) = some (.file content)) :
    t.rename (c.spare pool) (c.path pool) = .ok u ↔
      Fine (c.path pool) ∧ t.entry? (p ++ [fileName]) ≠ some .directory ∧
        u = (t.set (p ++ [fileName]) (.file content)).remove (p ++ [fileName ++ ".tmp"]) := by
  have bytes : t.read (c.spare pool) = .ok content :=
    (read_inside plain_spare).2 ⟨fine, p, leads, spare⟩
  have place : t.locate (c.spare pool) = .ok (p ++ [fileName ++ ".tmp"]) :=
    (locate_inside plain_spare).2 ⟨fine, p, leads, rfl⟩
  unfold rename
  rw [bytes]
  simp only [bind, Except.bind, place]
  constructor
  · intro renamed
    split at renamed
    · cases renamed
    · rename_i v written
      obtain ⟨short, q, way, free, rfl⟩ := (write_inside plain_file).1 written
      cases leads.eq way
      cases renamed
      exact ⟨short, free, rfl⟩
  · rintro ⟨short, free, rfl⟩
    have written : t.write (c.path pool) content = .ok (t.set (p ++ [fileName]) (.file content)) :=
      (write_inside plain_file).2 ⟨short, p, leads, free, rfl⟩
    rw [written]
    rfl

/-- Nothing in the directory of a pool keeps its file from being rewritten. -/
structure Clear (c : RangeCache) (pool : String) (t : FileTree) (p : Place) : Prop where
  spare : Fine (c.spare pool)
  path : Fine (c.path pool)
  beside : t.entry? (p ++ [fileName ++ ".tmp"]) ≠ some .directory
  free : t.entry? (p ++ [fileName]) ≠ some .directory

/-- A tree once the file in this directory has been rewritten. -/
def replaced (t : FileTree) (p : Place) (ranges : List AddressRange) : FileTree :=
  ((t.set (p ++ [fileName ++ ".tmp"]) (.file (utf8 (Cache.render ranges)))).set (p ++ [fileName])
    (.file (utf8 (Cache.render ranges)))).remove (p ++ [fileName ++ ".tmp"])

theorem entry?_replaced (p : Place) {name : String} :
    FileTree.entry? (replaced t p ranges) (p ++ [name]) =
      if name = fileName ++ ".tmp" then none
      else if name = fileName then some (.file (utf8 (Cache.render ranges)))
      else t.entry? (p ++ [name]) := by
  rw [replaced, entry?_remove_inside, entry?_set_inside, entry?_set_inside]
  split
  · rfl
  · rfl

theorem Settled.rewrite_iff (settled : Settled c pool t p) : c.rewrite t pool ranges = (.ok (), u) ↔
    Clear c pool t p ∧ u = replaced t p ranges := by
  have there : FileTree.entry? (t.set (p ++ [fileName ++ ".tmp"]) (.file (utf8 (Cache.render ranges))))
      (p ++ [fileName ++ ".tmp"]) = some (.file (utf8 (Cache.render ranges))) := by
    rw [entry?_set_inside, if_pos rfl]
  have same : FileTree.entry? (t.set (p ++ [fileName ++ ".tmp"]) (.file (utf8 (Cache.render ranges))))
      (p ++ [fileName]) = t.entry? (p ++ [fileName]) := by
    rw [entry?_set_inside, if_neg (by decide)]
  unfold RangeCache.rewrite
  constructor
  · intro done
    split at done
    · cases done
    · rename_i v written
      obtain ⟨spare, q, leads, beside, rfl⟩ := (write_inside plain_spare).1 written
      cases settled.leads.eq leads
      split at done
      · cases done
      · rename_i w renamed
        cases done
        obtain ⟨path, free, rfl⟩ :=
          (rename_spare spare (leads.keeps (set_keeps beside)) there).1 renamed
        rw [same] at free
        exact ⟨⟨spare, path, beside, free⟩, rfl⟩
  · rintro ⟨⟨spare, path, beside, free⟩, rfl⟩
    have written : t.write (c.spare pool) (utf8 (Cache.render ranges)) =
        .ok (t.set (p ++ [fileName ++ ".tmp"]) (.file (utf8 (Cache.render ranges)))) :=
      (write_inside plain_spare).2 ⟨spare, p, settled.leads, beside, rfl⟩
    have renamed := (rename_spare spare (settled.leads.keeps (set_keeps beside)) there).2
      ⟨path, same ▸ free, rfl⟩
    rw [written]
    dsimp only
    rw [renamed]
    rfl

theorem Settled.rewrite (settled : Settled c pool t p) (rooted : t.Rooted)
    (done : c.rewrite t pool ranges = (.ok (), u)) :
    Settled c pool u p ∧ u.Rooted ∧ c.load u pool = .ok ranges := by
  obtain ⟨clear, rfl⟩ := settled.rewrite_iff.1 done
  have first := set_keeps (e := .file (utf8 (Cache.render ranges))) clear.beside
  have free : FileTree.entry? (t.set (p ++ [fileName ++ ".tmp"]) (.file (utf8 (Cache.render ranges))))
      (p ++ [fileName]) ≠ some .directory := by
    rw [entry?_set_inside, if_neg (by decide)]
    exact clear.free
  have keeps := first.trans (set_keeps (e := .file (utf8 (Cache.render ranges))) free)
  have spare : FileTree.entry? ((t.set (p ++ [fileName ++ ".tmp"]) (.file (utf8 (Cache.render ranges)))).set
      (p ++ [fileName]) (.file (utf8 (Cache.render ranges))))
        (p ++ [fileName ++ ".tmp"]) ≠ some .directory := by
    rw [entry?_set_inside, if_neg (by decide), entry?_set_inside, if_pos rfl]
    nofun
  have way : (replaced t p ranges).Leads (c.poolPath pool) p :=
    (settled.leads.keeps keeps).remove (keeps.rooted rooted) spare
  obtain ⟨content, locked⟩ := settled.locked
  refine ⟨⟨way, settled.fine, content, ?_⟩, (keeps.rooted rooted).remove spare, ?_⟩
  · rw [entry?_replaced, if_neg (by decide), if_neg (by decide)]
    exact locked
  · apply load_render way clear.path
    rw [entry?_replaced, if_neg (by decide), if_pos rfl]

def kept (c : RangeCache) (t : FileTree) (pool : String) : List AddressRange :=
  ((c.load (c.lock t pool).2 pool).toOption).getD []

theorem kept_of_load (loaded : (c.load (c.lock t pool).2 pool).toOption = some ranges) :
    c.kept t pool = ranges := by
  rw [kept, loaded]
  rfl

theorem Settled.kept (settled : Settled c pool t p) (loaded : c.load t pool = .ok ranges) :
    c.kept t pool = ranges := by
  rw [RangeCache.kept, settled.lock, loaded]
  rfl

/-- What loads is on file, also before the directory is made. -/
def Readable (c : RangeCache) (t : FileTree) (pool : String) : Prop :=
  ∀ ranges, c.load t pool = .ok ranges → ranges = c.kept t pool

theorem Settled.readable (settled : Settled c pool t p) : c.Readable t pool :=
  fun _ loaded => (settled.kept loaded).symm

/-- A write beside the file of a pool leaves its text. -/
theorem readText_beside {content : String} {name : String} {e : FileEntry}
    (leads : t.Leads (c.poolPath pool) p) (other : name ≠ fileName)
    (free : t.entry? (p ++ [name]) ≠ some .directory) (text : t.readText (c.path pool) = .ok content) :
    (t.set (p ++ [name]) e).readText (c.path pool) = .ok content := by
  unfold readText at text
  cases bytes : t.read (c.path pool) with
  | error f => rw [bytes] at text; cases text
  | ok b =>
    obtain ⟨fine, q, way, entry⟩ := (read_inside plain_file).1 bytes
    cases leads.eq way
    have reread : (t.set (p ++ [name]) e).read (c.path pool) = .ok b := by
      rw [path, read_inside plain_file]
      refine ⟨fine, p, leads.keeps (set_keeps free), ?_⟩
      rw [entry?_set_inside, if_neg other.symm]
      exact entry
    rw [bytes] at text
    rw [readText, reread]
    exact text

theorem readText_lock {content : String} (text : t.readText (c.path pool) = .ok content) :
    (c.lock t pool).2.readText (c.path pool) = .ok content := by
  cases bytes : t.read (c.path pool) with
  | error f =>
    rw [readText, bytes] at text
    cases text
  | ok b =>
    obtain ⟨fine, p, leads, entry⟩ := (read_inside plain_file).1 bytes
    unfold RangeCache.lock
    rw [leads.makeDirectories fine plain_file]
    dsimp only
    split
    · exact text
    · rename_i u touched
      unfold touch at touched
      cases place : t.locate (c.lockPath pool) with
      | error f => rw [place] at touched; cases touched
      | ok q =>
        obtain ⟨_, q, way, rfl⟩ := (locate_inside plain_lock).1 place
        cases leads.eq way
        rw [place] at touched
        simp only [bind, Except.bind] at touched
        split at touched
        · cases touched
        · cases touched
          exact text
        · rename_i free
          cases touched
          have other : t.entry? (p ++ [".lock"]) ≠ some .directory := by rw [free]; nofun
          exact readText_beside leads (by decide) other text

theorem Reads.lock (reads : c.Reads t pool ranges) : c.Reads (c.lock t pool).2 pool ranges := by
  obtain ⟨content, text, same⟩ := reads
  exact ⟨content, readText_lock text, same⟩

theorem load_lock (loaded : c.load t pool = .ok ranges) :
    ranges = [] ∨ c.load (c.lock t pool).2 pool = .ok ranges := by
  unfold load at loaded
  cases found : t.readText (c.path pool) with
  | error f =>
    rw [found] at loaded
    cases f with
    | notFound => exact .inl (Except.ok.inj loaded).symm
    | notDirectory | isDirectory | notText | invalidName | nameTooLong => cases loaded
  | ok content =>
    rw [found] at loaded
    exact .inr (Reads.lock ⟨content, found, Except.ok.inj loaded⟩).load

theorem load_kept (loaded : c.load t pool = .ok ranges) : ranges = [] ∨ ranges = c.kept t pool := by
  rcases load_lock loaded with none | locked
  · exact .inl none
  · right
    rw [kept, locked]
    rfl

/-- A trouble of the file system. -/
def Faulty {α : Type} (x : Except Failure α) : Prop := ∃ path f, x = .error (.cache path (.file f))

def isFaulty {α : Type} : Except Failure α → Bool
  | .error (.cache _ (.file _)) => true
  | _ => false

theorem isFaulty_iff {α : Type} {x : Except Failure α} : isFaulty x = true ↔ Faulty x := by
  constructor
  · intro faulty
    unfold isFaulty at faulty
    split at faulty
    · exact ⟨_, _, rfl⟩
    · cases faulty
  · rintro ⟨path, f, rfl⟩
    rfl

theorem rewrite_faulty {x : Except Failure Unit} (done : c.rewrite t pool ranges = (x, u)) :
    Faulty x ∨ x = .ok () := by
  unfold RangeCache.rewrite at done
  split at done
  · cases done
    exact .inl ⟨_, _, rfl⟩
  · split at done
    · cases done
      exact .inl ⟨_, _, rfl⟩
    · cases done
      exact .inr rfl

theorem load_faulty {e : Failure} (failed : c.load t pool = .error e) :
    Faulty (.error e : Except Failure Unit) := by
  unfold load at failed
  split at failed
  · cases failed
  · cases failed
  · cases failed
    exact ⟨_, _, rfl⟩

theorem lock_faulty {x : Except Failure Unit} (done : c.lock t pool = (x, u)) :
    Faulty x ∨ x = .ok () := by
  unfold lock at done
  split at done
  · cases done
    exact .inl ⟨_, _, rfl⟩
  · split at done
    · cases done
      exact .inl ⟨_, _, rfl⟩
    · cases done
      exact .inr rfl

/-- Unless the file system fails, a range is added where it overlaps nothing, and only there. -/
theorem append_cases {x : Except Failure Unit} (rooted : t.Rooted)
    (done : c.append t pool r = (x, u)) (fine : ¬ Faulty x) : u.Rooted ∧ c.Readable u pool ∧
      ((x = .ok () ∧ Cache.overlapping? r (c.kept t pool) = none ∧
          c.kept u pool = c.kept t pool ++ [r]) ∨
        ((∃ path cached, x = .error (.cache path (.overlap r cached)) ∧
            Cache.overlapping? r (c.kept t pool) = some cached) ∧
          c.kept u pool = c.kept t pool)) := by
  unfold append appendBy at done
  split at done
  · rename_i e v locked
    cases done
    rcases lock_faulty locked with faulty | ok
    · exact absurd faulty fine
    · cases ok
  · rename_i v locked
    obtain ⟨keeps, p, settled⟩ := lock_eq_ok locked
    split at done
    · rename_i e failed
      cases done
      exact absurd (load_faulty failed) fine
    · rename_i ranges loaded
      have before : c.kept t pool = ranges := by
        rw [kept, locked, loaded]
        rfl
      rw [before]
      split at done
      · rename_i cached found
        cases done
        exact ⟨keeps.rooted rooted, settled.readable,
          .inr ⟨⟨_, cached, rfl, found⟩, settled.kept loaded⟩⟩
      · rename_i free
        rcases rewrite_faulty done with faulty | rfl
        · exact absurd faulty fine
        · obtain ⟨after, rooted, reloaded⟩ := settled.rewrite (keeps.rooted rooted) done
          exact ⟨rooted, after.readable, .inl ⟨rfl, free, after.kept reloaded⟩⟩

/-- Unless the file system fails, the first range that overlaps is taken away. -/
theorem delete_eq {x : Except Failure (Option AddressRange)} (rooted : t.Rooted)
    (done : c.delete t pool r = (x, u)) (fine : ¬ Faulty x) : u.Rooted ∧ c.Readable u pool ∧
      x = .ok (Cache.overlapping? r (c.kept t pool)) ∧
      c.kept u pool = Cache.without r (c.kept t pool) := by
  unfold delete deleteBy at done
  split at done
  · rename_i e v locked
    cases done
    rcases lock_faulty locked with ⟨path, f, same⟩ | ok
    · cases same
      exact absurd ⟨path, f, rfl⟩ fine
    · cases ok
  · rename_i v locked
    obtain ⟨keeps, p, settled⟩ := lock_eq_ok locked
    split at done
    · rename_i e failed
      cases done
      obtain ⟨path, f, same⟩ := load_faulty failed
      cases same
      exact absurd ⟨path, f, rfl⟩ fine
    · rename_i ranges loaded
      have before : c.kept t pool = ranges := by
        rw [kept, locked, loaded]
        rfl
      rw [before]
      split at done
      · rename_i free
        cases done
        have untouched : Cache.without r ranges = ranges :=
          List.eraseP_of_forall_not fun a mem => List.find?_eq_none.1 free a mem
        rw [untouched]
        exact ⟨keeps.rooted rooted, settled.readable, by rw [free], settled.kept loaded⟩
      · rename_i found overlapping
        cases rewritten : c.rewrite v pool (Cache.without r ranges) with
        | mk y w =>
          rw [rewritten] at done
          cases done
          rcases rewrite_faulty rewritten with ⟨path, f, rfl⟩ | rfl
          · exact absurd ⟨path, f, rfl⟩ fine
          · obtain ⟨after, rooted, reloaded⟩ := settled.rewrite (keeps.rooted rooted) rewritten
            exact ⟨rooted, after.readable, by rw [overlapping]; rfl, after.kept reloaded⟩

/-! Files that take every change. -/

theorem Clear.replaced (clear : Clear c pool t p) : Clear c pool (replaced t p ranges) p := by
  refine ⟨clear.spare, clear.path, ?_, ?_⟩
  · rw [entry?_replaced, if_pos rfl]
    nofun
  · rw [entry?_replaced, if_neg (by decide), if_pos rfl]
    nofun

/-- These ranges are on file, and the file can be locked and rewritten. -/
structure Filed (c : RangeCache) (t : FileTree) (pool : String) (ranges : List AddressRange) : Prop where
  rooted : t.Rooted
  loads : c.load t pool = .ok ranges
  locks : (c.lock t pool).1 = .ok ()
  reloads : c.load (c.lock t pool).2 pool = .ok ranges
  rewrites : (c.rewrite (c.lock t pool).2 pool ranges).1 = .ok ()

theorem Settled.filed (settled : Settled c pool t p) (clear : Clear c pool t p) (rooted : t.Rooted)
    (loads : c.load t pool = .ok ranges) : c.Filed t pool ranges := by
  have rewritten : c.rewrite t pool ranges = (.ok (), replaced t p ranges) :=
    settled.rewrite_iff.2 ⟨clear, rfl⟩
  refine ⟨rooted, loads, ?_, ?_, ?_⟩
  · rw [settled.lock]
  · rw [settled.lock]
    exact loads
  · rw [settled.lock, rewritten]

theorem Filed.serve_load (filed : c.Filed t pool ranges) : c.serve t (.load pool) = (.ok ranges, t) := by
  rw [serve, filed.loads]

theorem Filed.kept (filed : c.Filed t pool ranges) : c.kept t pool = ranges := by
  apply kept_of_load
  rw [filed.reloads]
  rfl

theorem Filed.readable (filed : c.Filed t pool ranges) : c.Readable t pool := by
  intro found loaded
  rw [filed.kept]
  exact Except.ok.inj (loaded.symm.trans filed.loads)

theorem Filed.lock (filed : c.Filed t pool ranges) :
    ∃ u p, c.lock t pool = (.ok (), u) ∧ Settled c pool u p ∧ Clear c pool u p ∧ u.Rooted ∧
      c.load u pool = .ok ranges := by
  obtain ⟨rooted, _, locks, reloads, rewrites⟩ := filed
  cases locked : c.lock t pool with
  | mk x u =>
    rw [locked] at locks reloads rewrites
    cases locks
    obtain ⟨keeps, p, settled⟩ := lock_eq_ok locked
    cases rewritten : c.rewrite u pool ranges with
    | mk y v =>
      rw [rewritten] at rewrites
      cases rewrites
      exact ⟨u, p, rfl, settled, (settled.rewrite_iff.1 rewritten).1, keeps.rooted rooted, reloads⟩

theorem Settled.rewrite_filed (settled : Settled c pool t p) (clear : Clear c pool t p)
    (rooted : t.Rooted) (ranges : List AddressRange) :
    ∃ u, c.rewrite t pool ranges = (.ok (), u) ∧ c.Filed u pool ranges := by
  have rewritten : c.rewrite t pool ranges = (.ok (), replaced t p ranges) :=
    settled.rewrite_iff.2 ⟨clear, rfl⟩
  obtain ⟨settled, rooted, loads⟩ := settled.rewrite rooted rewritten
  exact ⟨_, rewritten, settled.filed clear.replaced rooted loads⟩

theorem Filed.append (filed : c.Filed t pool ranges) (free : Cache.overlapping? r ranges = none) :
    ∃ u, c.append t pool r = (.ok (), u) ∧ c.Filed u pool (ranges ++ [r]) := by
  obtain ⟨v, p, locked, settled, clear, rooted, loads⟩ := filed.lock
  obtain ⟨u, rewritten, filed⟩ := settled.rewrite_filed clear rooted (ranges ++ [r])
  refine ⟨u, ?_, filed⟩
  unfold RangeCache.append appendBy
  rw [locked]
  dsimp only
  rw [loads]
  dsimp only
  rw [free]
  exact rewritten

theorem Filed.delete (filed : c.Filed t pool ranges) (r : AddressRange) :
    ∃ u, c.delete t pool r = (.ok (Cache.overlapping? r ranges), u) ∧
      c.Filed u pool (Cache.without r ranges) := by
  obtain ⟨v, p, locked, settled, clear, rooted, loads⟩ := filed.lock
  unfold RangeCache.delete deleteBy
  rw [locked]
  dsimp only
  rw [loads]
  dsimp only
  cases found : Cache.overlapping? r ranges with
  | none =>
    have untouched : Cache.without r ranges = ranges :=
      List.eraseP_of_forall_not fun a mem => List.find?_eq_none.1 found a mem
    exact ⟨v, rfl, untouched.symm ▸ settled.filed clear rooted loads⟩
  | some cached =>
    obtain ⟨u, rewritten, filed⟩ := settled.rewrite_filed clear rooted (Cache.without r ranges)
    refine ⟨u, ?_, filed⟩
    rw [rewritten]
    rfl

-- What is on file is known by the lemmas above, never by reading the tree again.
attribute [irreducible] kept

end RangeCache

end NetPool
