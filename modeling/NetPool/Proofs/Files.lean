import NetPool.Files.Tree
import NetPool.Proofs.Store.Order

/-! Files in a directory. Once a path leads to the directory, writing, moving and removing files in it
leave the way there open. -/

namespace NetPool.FileTree

variable {t u : FileTree} {p q : Place} {e : FileEntry} {names : List String}

@[simp] theorem set_home : (t.set p e).home = t.home := rfl
@[simp] theorem remove_home : (t.remove p).home = t.home := rfl

theorem entry?_set (proper : p ≠ []) :
    FileTree.entry? (t.set p e) q = if q = p then some e else t.entry? q := by
  unfold entry? set
  by_cases root : q = []
  · rw [if_pos root, if_pos root, if_neg (root ▸ proper.symm)]
  · have others := find?_filter_key Prod.fst (fun k => decide (k ≠ p)) t.entries q
    rw [if_neg root, if_neg root, List.find?_append, others]
    by_cases same : q = p
    · simp [same]
    · simp [same, Ne.symm same]

theorem entry?_remove (proper : p ≠ []) :
    FileTree.entry? (t.remove p) q = if p <+: q then none else t.entry? q := by
  unfold entry? remove
  by_cases root : q = []
  · have apart : ¬ p <+: q := by
      rw [root, List.prefix_nil]
      exact proper
    rw [if_pos root, if_pos root, if_neg apart]
  · have others := find?_filter_key Prod.fst (fun k => !p.isPrefixOf k) t.entries q
    rw [if_neg root, if_neg root, others]
    by_cases below : p <+: q
    · rw [if_pos below, List.isPrefixOf_iff_prefix.2 below]
      rfl
    · rw [if_neg below, Bool.eq_false_iff.2 fun h => below (List.isPrefixOf_iff_prefix.1 h)]
      rfl

theorem entry?_set_inside (p : Place) {a b : String} :
    FileTree.entry? (t.set (p ++ [a]) e) (p ++ [b]) =
      if b = a then some e else t.entry? (p ++ [b]) := by
  rw [entry?_set (by simp)]
  simp

theorem entry?_remove_inside (p : Place) {a b : String} :
    FileTree.entry? (t.remove (p ++ [a])) (p ++ [b]) = if b = a then none else t.entry? (p ++ [b]) := by
  have prefix_iff : p ++ [a] <+: p ++ [b] ↔ b = a := by
    rw [List.prefix_append_right_inj, List.cons_prefix_cons]
    simp [eq_comm]
  rw [entry?_remove (by simp)]
  simp only [prefix_iff]

/-- The home directory and those around it are there. -/
def Rooted (t : FileTree) : Prop := ∀ p, p <+: t.home → t.entry? p = some .directory

structure Keeps (t u : FileTree) : Prop where
  home : u.home = t.home
  directory : ∀ p, t.entry? p = some .directory → u.entry? p = some .directory

theorem Keeps.refl (t : FileTree) : Keeps t t := ⟨rfl, fun _ h => h⟩

theorem Keeps.trans {v : FileTree} (a : Keeps t u) (b : Keeps u v) : Keeps t v :=
  ⟨b.home.trans a.home, fun p h => b.directory p (a.directory p h)⟩

theorem Keeps.rooted (keeps : Keeps t u) (rooted : Rooted t) : Rooted u := by
  intro p above
  rw [keeps.home] at above
  exact keeps.directory p (rooted p above)

theorem ne_nil_of_entry (other : t.entry? p ≠ some .directory) : p ≠ [] := by
  rintro rfl
  exact other (if_pos rfl)

theorem set_keeps (other : t.entry? p ≠ some .directory) : Keeps t (t.set p e) where
  home := rfl
  directory := by
    intro q there
    have ne : q ≠ p := fun same => other (same ▸ there)
    rw [entry?_set (ne_nil_of_entry other), if_neg ne]
    exact there

theorem needDirectory_eq_ok : t.needDirectory p = .ok () ↔ t.entry? p = some .directory := by
  unfold needDirectory
  split
  · rename_i h; simp [h]
  · rename_i h; simp [h]
  · rename_i h; simp [h]

theorem follow_cons {name : String} : t.follow p (name :: names) = .ok q ↔
    t.entry? p = some .directory ∧
      (if name = "" ∨ name = "." then t.follow p names
        else if name = ".." then t.follow p.dropLast names
        else if longestName < name.utf8ByteSize then .error .nameTooLong
        else t.follow (p ++ [name]) names) = .ok q := by
  rw [follow, ← needDirectory_eq_ok]
  cases t.needDirectory p with
  | error f => simp [bind, Except.bind]
  | ok v => simp [bind, Except.bind, throw, throwThe, MonadExceptOf.throw]

theorem follow_keeps (keeps : Keeps t u) (found : t.follow p names = .ok q) :
    u.follow p names = .ok q := by
  induction names generalizing p with
  | nil => exact found
  | cons name names ih =>
    obtain ⟨directory, rest⟩ := follow_cons.1 found
    refine follow_cons.2 ⟨keeps.directory p directory, ?_⟩
    split
    · rename_i stay
      rw [if_pos stay] at rest
      exact ih rest
    · rename_i go
      rw [if_neg go] at rest
      split
      · rename_i up
        rw [if_pos up] at rest
        exact ih rest
      · rename_i down
        rw [if_neg down] at rest
        split
        · rename_i long
          rw [if_pos long] at rest
          cases rest
        · rename_i short
          rw [if_neg short] at rest
          exact ih rest

theorem follow_append {more : List String} : t.follow p (names ++ more) = .ok q ↔
    ∃ r, t.follow p names = .ok r ∧ t.follow r more = .ok q := by
  induction names generalizing p with
  | nil => simp [follow]
  | cons name names ih =>
    simp only [List.cons_append, follow_cons]
    by_cases directory : t.entry? p = some .directory
    · split
      · simp [ih, directory]
      · split
        · simp [ih, directory]
        · split
          · simp
          · simp [ih, directory]
    · simp [directory]

/-! Paths into a directory. -/

/-- A name that leads one step down, and that a path may hold. -/
structure Plain (name : String) : Prop where
  filled : name ≠ ""
  down : name ≠ "." ∧ name ≠ ".."
  whole : '/' ∉ name.toList
  clean : '\x00' ∉ name.toList
  short : name.utf8ByteSize ≤ longestName

/-- What stands before a name in a path into a directory. -/
def baseOf (directory : String) : List Char :=
  if directory = "" ∨ directory.toList.getLast? = some '/' then directory.toList
  else directory.toList ++ ['/']

theorem joinPath_toList (directory : String) {name : String} (plain : Plain name) :
    (joinPath directory name).toList = baseOf directory ++ name.toList := by
  have relative : ¬ startsWith name "/" = true := by
    rw [startsWith_iff]
    rintro ⟨rest, text⟩
    exact plain.whole (text ▸ List.mem_append_left _ (List.mem_singleton_self _))
  unfold joinPath baseOf
  rw [if_neg relative]
  split
  · exact String.toList_append
  · rw [String.toList_append, String.toList_append]
    rfl

def start (t : FileTree) (directory : String) : Place :=
  if (baseOf directory).head? = some '/' then [] else t.home

def steps (directory : String) : List String :=
  ((baseOf directory).splitOn '/').dropLast.map String.ofList

/-- A path with this name leads into this directory. -/
def Leads (t : FileTree) (directory : String) (p : Place) : Prop :=
  t.follow (t.start directory) (steps directory) = .ok p ∧ t.entry? p = some .directory

/-- A path that the system takes. -/
def Fine (path : String) : Prop := '\x00' ∉ path.toList ∧ path.utf8ByteSize ≤ longestPath

theorem baseOf_splitOn (directory : String) {name : String} (plain : Plain name) :
    (baseOf directory ++ name.toList).splitOn '/' =
      ((baseOf directory).splitOn '/').dropLast ++ [name.toList] := by
  have single : name.toList.splitOn '/' = [name.toList] := List.splitOn_eq_singleton plain.whole
  have ends : baseOf directory = [] ∨ ∃ b, baseOf directory = b ++ ['/'] := by
    unfold baseOf
    split
    · rename_i h
      rcases h with rfl | last
      · exact .inl rfl
      · obtain ⟨b, text⟩ := List.getLast?_eq_some_iff.1 last
        exact .inr ⟨b, text⟩
    · exact .inr ⟨_, rfl⟩
  rcases ends with none | ⟨b, text⟩
  · rw [none, List.nil_append, single]
    rfl
  · rw [text, List.append_assoc, List.singleton_append, List.splitOn_append_cons_self,
      List.splitOn_append_cons_self, single, List.splitOn_nil, List.dropLast_concat]

theorem parts_inside {directory name : String} (plain : Plain name) {r : Place × List String} :
    t.parts (joinPath directory name) = .ok r ↔ Fine (joinPath directory name) ∧
      r = (t.start directory, steps directory ++ [name]) := by
  have text := joinPath_toList directory plain
  have filled : joinPath directory name ≠ "" := by
    intro empty
    rw [empty] at text
    have none := (List.append_eq_nil_iff.1 text.symm).2
    exact plain.filled (String.toList_eq_nil_iff.1 none)
  have head : (joinPath directory name).toList.head? = some '/' ↔
      (baseOf directory).head? = some '/' := by
    rw [text]
    cases base : baseOf directory with
    | cons c rest => rfl
    | nil =>
      have other : name.toList.head? ≠ some '/' := fun h => plain.whole (List.mem_of_head? h)
      simp [other]
  have names : ((joinPath directory name).toList.splitOn '/').map String.ofList =
      steps directory ++ [name] := by
    rw [text, baseOf_splitOn directory plain, List.map_append, steps, List.map_singleton,
      String.ofList_toList]
  unfold parts Fine
  dsimp only
  rw [names]
  by_cases clean : '\x00' ∈ (joinPath directory name).toList
  · simp [clean]
  · by_cases long : longestPath < (joinPath directory name).utf8ByteSize
    · simp [clean, filled, long, Nat.not_le.2 long]
    · simp only [List.contains_iff_mem, clean, if_false, filled, long, Nat.not_lt.1 long,
        not_false_eq_true, true_and, head, Except.ok.injEq, start]
      exact eq_comm

theorem follow_plain {name : String} (plain : Plain name) :
    t.follow p [name] = .ok q ↔ t.entry? p = some .directory ∧ q = p ++ [name] := by
  rw [follow_cons, if_neg (by simp [plain.filled, plain.down.1]), if_neg plain.down.2,
    if_neg (Nat.not_lt.2 plain.short), follow, Except.ok.injEq, eq_comm (a := q)]

theorem locate_inside {directory name : String} (plain : Plain name) :
    t.locate (joinPath directory name) = .ok q ↔
      Fine (joinPath directory name) ∧ ∃ p, t.Leads directory p ∧ q = p ++ [name] := by
  have split : t.locate (joinPath directory name) = .ok q ↔
      ∃ r, t.parts (joinPath directory name) = .ok r ∧ t.follow r.1 r.2 = .ok q := by
    unfold locate
    cases t.parts (joinPath directory name) <;> simp [bind, Except.bind]
  simp only [split, parts_inside plain]
  constructor
  · rintro ⟨r, ⟨fine, rfl⟩, found⟩
    obtain ⟨p, way, last⟩ := follow_append.1 found
    obtain ⟨directory, rfl⟩ := (follow_plain plain).1 last
    exact ⟨fine, p, ⟨way, directory⟩, rfl⟩
  · rintro ⟨fine, p, ⟨way, directory⟩, rfl⟩
    exact ⟨_, ⟨fine, rfl⟩, follow_append.2 ⟨p, way, (follow_plain plain).2 ⟨directory, rfl⟩⟩⟩

theorem write_inside {directory name : String} (plain : Plain name) {content : Bytes} :
    t.write (joinPath directory name) content = .ok u ↔ Fine (joinPath directory name) ∧
      ∃ p, t.Leads directory p ∧ t.entry? (p ++ [name]) ≠ some .directory ∧
        u = t.set (p ++ [name]) (.file content) := by
  unfold write
  constructor
  · intro written
    cases found : t.locate (joinPath directory name) with
    | error f => rw [found] at written; cases written
    | ok q =>
      rw [found] at written
      obtain ⟨fine, p, leads, rfl⟩ := (locate_inside plain).1 found
      simp only [bind, Except.bind] at written
      split at written
      · cases written
      · rename_i other
        exact ⟨fine, p, leads, other, (Except.ok.inj written).symm⟩
  · rintro ⟨fine, p, leads, other, rfl⟩
    rw [(locate_inside plain).2 ⟨fine, p, leads, rfl⟩]
    simp only [bind, Except.bind]
    rfl

theorem read_inside {directory name : String} (plain : Plain name) {content : Bytes} :
    t.read (joinPath directory name) = .ok content ↔ Fine (joinPath directory name) ∧
      ∃ p, t.Leads directory p ∧ t.entry? (p ++ [name]) = some (.file content) := by
  unfold read
  constructor
  · intro content
    cases found : t.locate (joinPath directory name) with
    | error f => rw [found] at content; cases content
    | ok q =>
      rw [found] at content
      obtain ⟨fine, p, leads, rfl⟩ := (locate_inside plain).1 found
      simp only [bind, Except.bind] at content
      split at content
      · rename_i entry
        cases content
        exact ⟨fine, p, leads, entry⟩
      · cases content
      · cases content
  · rintro ⟨fine, p, leads, entry⟩
    rw [(locate_inside plain).2 ⟨fine, p, leads, rfl⟩]
    simp only [bind, Except.bind, entry]
    rfl

theorem Leads.keeps {directory : String} (leads : t.Leads directory p) (keeps : Keeps t u) :
    u.Leads directory p := by
  refine ⟨?_, keeps.directory p leads.2⟩
  have same : u.start directory = t.start directory := by
    unfold start
    rw [keeps.home]
  rw [same]
  exact follow_keeps keeps leads.1

theorem Leads.eq {directory : String} (leads : t.Leads directory p) (other : t.Leads directory q) :
    p = q := by
  have same := leads.1
  rw [other.1] at same
  exact (Except.ok.inj same).symm

/-- The removal of a file leaves the ways open that do not start below it. -/
theorem follow_remove {file : Place} (other : t.entry? file ≠ some .directory)
    (apart : file <+: p → p = file) (found : t.follow p names = .ok q) :
    (t.remove file).follow p names = .ok q ∧ (file <+: q → q = file) := by
  have proper := ne_nil_of_entry other
  induction names generalizing p with
  | nil =>
    cases found
    exact ⟨rfl, apart⟩
  | cons name names ih =>
    obtain ⟨directory, rest⟩ := follow_cons.1 found
    have outside : ¬ file <+: p := fun below => other (apart below ▸ directory)
    have there : FileTree.entry? (t.remove file) p = some .directory := by
      rw [entry?_remove proper, if_neg outside]
      exact directory
    have up : file <+: p.dropLast → p.dropLast = file := fun below =>
      absurd (below.trans (List.dropLast_prefix p)) outside
    have down : file <+: p ++ [name] → p ++ [name] = file := by
      intro below
      rcases List.prefix_concat_iff.1 below with whole | inner
      · exact whole.symm
      · exact absurd inner outside
    rw [follow_cons]
    simp only [there, true_and]
    split at rest
    · rename_i stay
      rw [if_pos stay]
      exact ih apart rest
    · rename_i go
      rw [if_neg go]
      split at rest
      · rename_i back
        rw [if_pos back]
        exact ih up rest
      · rename_i deeper
        rw [if_neg deeper]
        split at rest
        · cases rest
        · rename_i short
          rw [if_neg short]
          exact ih down rest

theorem Rooted.remove {file : Place} (rooted : Rooted t) (other : t.entry? file ≠ some .directory) :
    Rooted (t.remove file) := by
  intro p above
  have outside : ¬ file <+: p := fun below => other (rooted file (below.trans above))
  rw [entry?_remove (ne_nil_of_entry other), if_neg outside]
  exact rooted p above

theorem Leads.remove {file : Place} {directory : String} (leads : t.Leads directory p)
    (rooted : Rooted t) (other : t.entry? file ≠ some .directory) :
    (t.remove file).Leads directory p := by
  have apart : file <+: t.start directory → t.start directory = file := by
    unfold start
    split
    · intro root
      exact (List.prefix_nil.1 root).symm
    · intro home
      exact absurd (rooted file home) other
  obtain ⟨way, last⟩ := follow_remove other apart leads.1
  have outside : ¬ file <+: p := fun below => other (last below ▸ leads.2)
  refine ⟨way, ?_⟩
  rw [entry?_remove (ne_nil_of_entry other), if_neg outside]
  exact leads.2

/-! Making directories. -/

theorem makeDirectory_keeps (made : t.makeDirectory p names = .ok u) : Keeps t u := by
  unfold makeDirectory at made
  cases found : t.follow p names with
  | error f => rw [found] at made; cases made
  | ok q =>
    rw [found] at made
    simp only [bind, Except.bind] at made
    cases entry : t.entry? q with
    | none =>
      rw [entry] at made
      cases made
      exact set_keeps (by rw [entry]; nofun)
    | some e =>
      rw [entry] at made
      cases e with
      | file content => cases made
      | directory => cases made; exact Keeps.refl t

theorem makeInside_keeps (t : FileTree) (p : Place) (lists : List (List String)) :
    Keeps t (t.makeInside p lists).2 := by
  induction lists with
  | nil => exact Keeps.refl t
  | cons names outer ih =>
    unfold makeInside
    split
    · rename_i made
      exact makeDirectory_keeps made
    · split
      · rename_i u inside
        rw [inside] at ih
        exact ih
      · rename_i u inside
        rw [inside] at ih
        split
        · rename_i made
          exact ih.trans (makeDirectory_keeps made)
        · exact ih
    · exact Keeps.refl t

theorem makeDirectories_keeps (t : FileTree) (directory : String) :
    Keeps t (t.makeDirectories directory).2 := by
  unfold makeDirectories
  split
  · exact Keeps.refl t
  · split
    · exact Keeps.refl t
    · exact makeInside_keeps t _ _

theorem follow_blanks {k : Nat} (found : t.follow p (List.replicate k "") = .ok q) : q = p := by
  induction k with
  | zero => exact (Except.ok.inj found).symm
  | succ k ih =>
    have rest := (follow_cons.1 found).2
    rw [if_pos (.inl rfl)] at rest
    exact ih rest

theorem exists_blanks (names : List String) :
    ∃ k, names = (names.reverse.dropWhile (· = "")).reverse ++ List.replicate k "" := by
  have split : names.reverse.takeWhile (· = "") ++ names.reverse.dropWhile (· = "") =
      names.reverse := List.takeWhile_append_dropWhile
  have blanks : names.reverse.takeWhile (· = "") =
      List.replicate (names.reverse.takeWhile (· = "")).length "" := by
    refine List.eq_replicate_iff.2 ⟨rfl, fun a mem => ?_⟩
    exact of_decide_eq_true (List.all_eq_true.1 List.all_takeWhile a mem)
  refine ⟨(names.reverse.takeWhile (· = "")).length, ?_⟩
  rw [← List.reverse_replicate, ← blanks, ← List.reverse_append, split, List.reverse_reverse]

/-- The names of a directory, those at its end that lead nowhere left out. -/
theorem strip_steps {directory : String} (filled : directory ≠ "") :
    (((directory.toList.splitOn '/').map String.ofList).reverse.dropWhile (· = "")).reverse =
      ((steps directory).reverse.dropWhile (· = "")).reverse := by
  unfold steps baseOf
  split
  · rename_i h
    obtain ⟨b, text⟩ := List.getLast?_eq_some_iff.1 (h.resolve_left filled)
    rw [text, List.splitOn_append_cons_self, List.splitOn_nil, List.dropLast_concat, List.map_append,
      List.reverse_append]
    rfl
  · rw [List.splitOn_append_cons_self, List.splitOn_nil, List.dropLast_concat]

theorem parts_directory {directory name : String} (filled : directory ≠ "")
    (fine : Fine (joinPath directory name)) (plain : Plain name) :
    t.parts directory =
      .ok (t.start directory, (directory.toList.splitOn '/').map String.ofList) := by
  have text := joinPath_toList directory plain
  have inside : ∃ more, baseOf directory = directory.toList ++ more := by
    unfold baseOf
    split
    · exact ⟨[], (List.append_nil _).symm⟩
    · exact ⟨['/'], rfl⟩
  obtain ⟨more, base⟩ := inside
  have whole : joinPath directory name = directory ++ String.ofList (more ++ name.toList) := by
    apply String.toList_inj.1
    rw [text, base, String.toList_append, String.toList_ofList, List.append_assoc]
  have clean : '\x00' ∉ directory.toList := by
    intro mem
    apply fine.1
    rw [text, base]
    exact List.mem_append_left _ (List.mem_append_left _ mem)
  have short : ¬ longestPath < directory.utf8ByteSize := by
    have bound := fine.2
    rw [whole, String.utf8ByteSize_append] at bound
    omega
  have head : directory.toList.head? = (baseOf directory).head? := by
    rw [base]
    cases list : directory.toList with
    | nil => exact absurd (String.toList_eq_nil_iff.1 list) filled
    | cons c rest => rfl
  unfold parts start
  simp [clean, filled, short, head]

theorem Leads.makeDirectories {directory name : String} (leads : t.Leads directory p)
    (fine : Fine (joinPath directory name)) (plain : Plain name) :
    t.makeDirectories directory = (.ok (), t) := by
  unfold FileTree.makeDirectories
  split
  · rfl
  · rename_i filled
    rw [parts_directory filled fine plain]
    dsimp only
    rw [strip_steps filled]
    obtain ⟨k, blanks⟩ := exists_blanks (steps directory)
    obtain ⟨way, there⟩ := leads
    rw [blanks, follow_append] at way
    obtain ⟨q, first, rest⟩ := way
    have same := follow_blanks rest
    have made : t.makeDirectory (t.start directory)
        ((steps directory).reverse.dropWhile (· = "")).reverse = .ok t := by
      unfold makeDirectory
      rw [first, ← same]
      simp only [bind, Except.bind, there]
      rfl
    unfold enclosing makeInside
    rw [made]

end NetPool.FileTree
