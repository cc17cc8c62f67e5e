import NetPool.Proofs.Store.Journal

/-! Locks of a store over a whole run, with every handle it has handed out kept beside it. Anyone may
unlock with any handle at any time; a guard that is dropped has its unlock sent, to arrive whenever it
does. The tokens are numbered through over all names: that is what tells an old handle from a new one. -/

namespace NetPool

namespace Store

/-- The token under which a lock is held. -/
def current (s : Store) (name : String) : Option Nat :=
  (s.locks.find? (·.name = name)).map (·.token)

/-- The handle that a move hands out. -/
def handsOut (s : Store) : Move → List Grant
  | .serve (.lock name) =>
    match (s.serve (.lock name)).1 with
    | some (.ok g) => [g]
    | _ => []
  | _ => []

/-- The handle with which a move frees a lock. -/
def takesBack (s : Store) : Move → List Grant
  | .serve (.unlock g) =>
    match (s.serve (.unlock g)).1 with
    | some (.ok _) => [g]
    | _ => []
  | _ => []

/-- What a move can do to the locks, with the handles it hands out and takes back. -/
inductive Locking (s t : Store) (m : Move) : List Grant → List Grant → Prop
  | none (locks : t.locks = s.locks) (token : t.lastToken = s.lastToken) : Locking s t m [] []
  | taken (name : String) (free : s.isLocked name = false)
      (locks : t.locks = s.grant name :: s.locks) (token : t.lastToken = s.lastToken + 1) :
      Locking s t m [s.grant name] []
  | freed (g : Grant) (asked : m = .serve (.unlock g)) (held : g ∈ s.locks)
      (locks : t.locks = s.locks.filter (· ≠ g)) (token : t.lastToken = s.lastToken) :
      Locking s t m [] [g]

theorem unlock_held {s : Store} {g : Grant} (held : g ∈ s.locks) :
    s.unlock g = (.ok (), { s with locks := s.locks.filter (· ≠ g) }) := if_pos held

theorem unlock_strange {s : Store} {g : Grant} (strange : g ∉ s.locks) : s.unlock g =
    (.error (.internal ("lock " ++ g.name ++ " is not held by this session")), s) := if_neg strange

theorem current_unlock {s : Store} {g : Grant} (held : g ∈ s.locks) {name : String}
    (other : name ≠ g.name) : (s.unlock g).2.current name = s.current name := by
  rw [unlock_held held, current, current]
  dsimp only
  rw [List.find?_filter]
  congr 2
  funext h
  by_cases here : h.name = name
  · have ne : h ≠ g := by
      rintro rfl
      exact other here.symm
    simp [here, ne]
  · simp [here]

/-- A lock that is asked for is granted if it is free; otherwise nothing happens. -/
theorem serve_lock_cases (s : Store) (name : String) :
    ((∀ g, (s.serve (.lock name)).1 ≠ some (.ok g)) ∧ (s.serve (.lock name)).2 = s) ∨
      (s.isLocked name = false ∧ s.serve (.lock name) = (some (.ok (s.grant name)), s.granted name)) := by
  cases available : s.available with
  | false =>
    refine .inl ?_
    simp [serve, lock, reachable, available]
  | true =>
    cases locked : s.isLocked name with
    | false => exact .inr ⟨rfl, serve_lock_of_free available locked⟩
    | true =>
      refine .inl ?_
      simp [serve, lock, reachable, available, locked]

theorem step_locking (s : Store) (m : Move) :
    Locking s (s.step m) m (s.handsOut m) (s.takesBack m) := by
  cases m with
  | available value => exact .none rfl rfl
  | failCreations count => exact .none rfl rfl
  | compact revision =>
    rw [step, compact]
    split <;> exact .none rfl rfl
  | serve r =>
    have frame := s.serve_frame r
    cases r with
    | lock name =>
      rcases s.serve_lock_cases name with ⟨refused, same⟩ | ⟨free, granted⟩
      · have nothing : s.handsOut (.serve (.lock name)) = [] := by
          rw [handsOut]
          split
          · rename_i g answer
            exact absurd answer (refused g)
          · rfl
        rw [nothing]
        exact .none (congrArg (·.locks) same) (congrArg (·.lastToken) same)
      · simp only [handsOut, granted]
        exact .taken name free (congrArg (·.2.locks) granted) (congrArg (·.2.lastToken) granted)
    | unlock g =>
      simp only [takesBack, step, serve]
      by_cases held : g ∈ s.locks
      · rw [unlock_held held]
        exact .freed g rfl held rfl rfl
      · rw [unlock_strange held]
        exact .none rfl rfl
    | range | get | create | put | delete | compareAndDelete | watch =>
      exact .none (frame.locks rfl) (frame.tokens rfl)

end Store

/-- A store, the guards that its clients have in hand, and the unlocks that dropped guards have sent. -/
structure LockBook where
  store : Store
  guards : List Grant
  sent : List Grant
  /-- Every handle that has been handed out, in order. -/
  issued : List Grant
  /-- The handles with which a lock has been freed. -/
  freed : List Grant

namespace LockBook

inductive Act
  /-- Any request of any client, an unlock with any handle among them, and whatever else can happen to
  a store. -/
  | move (m : Store.Move)
  | guard (name : String)
  | release (g : Grant)
  /-- A guard is dropped, and its unlock is sent. -/
  | drop (g : Grant)
  /-- A guard is dropped, and no unlock is sent. -/
  | lose (g : Grant)
  /-- The unlock of a dropped guard gets to the store. -/
  | arrive (g : Grant)

def opened (historyLimit : Nat) : LockBook := ⟨.empty historyLimit, [], [], [], []⟩

def enter (b : LockBook) (m : Store.Move) : LockBook :=
  { b with
    store := b.store.step m
    issued := b.issued ++ b.store.handsOut m
    freed := b.freed ++ b.store.takesBack m }

def step (b : LockBook) : Act → LockBook
  | .move m => b.enter m
  | .guard name =>
    { b.enter (.serve (.lock name)) with
      guards := b.guards ++ b.store.handsOut (.serve (.lock name)) }
  | .release g =>
    if g ∈ b.guards then { b.enter (.serve (.unlock g)) with guards := b.guards.erase g } else b
  | .drop g =>
    if g ∈ b.guards then { b with guards := b.guards.erase g, sent := g :: b.sent } else b
  | .lose g => { b with guards := b.guards.erase g }
  | .arrive g =>
    if g ∈ b.sent then { b.enter (.serve (.unlock g)) with sent := b.sent.erase g } else b

def run (b : LockBook) (acts : List Act) : LockBook := acts.foldl step b

/-- The handle has been granted and not yet unlocked. -/
def Stands (b : LockBook) (g : Grant) : Prop := g ∈ b.issued ∧ g ∉ b.freed

/-- The acts that unlock with a handle. -/
def Act.Unlocks (g : Grant) : Act → Prop
  | .move m => m = .serve (.unlock g)
  | .release h => h = g
  | .arrive h => h = g
  | .guard _ | .drop _ | .lose _ => False

/-- The book and the locks of the store say the same. -/
structure Kept (b : LockBook) : Prop where
  numbered : b.issued.map (·.token) = List.range' 1 b.store.lastToken
  held (g : Grant) : g ∈ b.store.locks ↔ b.Stands g
  single : ∀ g ∈ b.store.locks, ∀ h ∈ b.store.locks, g.name = h.name → g = h
  once : ∀ g ∈ b.freed, g ∈ b.issued

theorem Kept.le_lastToken {b : LockBook} (kept : b.Kept) {g : Grant} (issued : g ∈ b.issued) :
    g.token ≤ b.store.lastToken := by
  have mem := List.mem_map_of_mem (f := (·.token)) issued
  rw [kept.numbered, List.mem_range'_1] at mem
  omega

theorem opened_kept (historyLimit : Nat) : (opened historyLimit).Kept where
  numbered := rfl
  held g := by simp [opened, Store.empty, Stands]
  single := nofun
  once := nofun

/-- A free lock is granted under a token that is above all others. -/
theorem enter_kept {b : LockBook} (kept : b.Kept) (m : Store.Move) : (b.enter m).Kept := by
  have change := b.store.step_locking m
  unfold enter
  generalize b.store.handsOut m = out, b.store.takesBack m = back at change
  cases change with
  | none locks token =>
    simp only [List.append_nil]
    exact ⟨token ▸ kept.numbered, fun g => locks ▸ kept.held g, locks ▸ kept.single, kept.once⟩
  | taken name free locks token =>
    have new {g} (issued : g ∈ b.issued) : g ≠ b.store.grant name := by
      rintro rfl
      exact absurd (kept.le_lastToken issued) (Nat.not_succ_le_self _)
    simp only [List.append_nil]
    refine ⟨?_, fun g => ?_, ?_, fun g mem => List.mem_append_left _ (kept.once g mem)⟩
    · rw [List.map_append, kept.numbered, token, List.range'_concat]
      simp [Store.grant, Nat.add_comm]
    · simp only [locks, Stands, List.mem_cons, List.mem_append, kept.held, List.not_mem_nil, or_false]
      constructor
      · rintro (rfl | ⟨issued, still⟩)
        · exact ⟨.inr rfl, fun gone => new (kept.once _ gone) rfl⟩
        · exact ⟨.inl issued, still⟩
      · rintro ⟨issued | rfl, still⟩
        · exact .inr ⟨issued, still⟩
        · exact .inl rfl
    · rw [Store.isLocked, List.any_eq_false] at free
      rw [locks]
      intro g there h there' same
      rcases List.mem_cons.1 there with rfl | old <;> rcases List.mem_cons.1 there' with rfl | old'
      · rfl
      · exact absurd (decide_eq_true same.symm) (free h old')
      · exact absurd (decide_eq_true same) (free g old)
      · exact kept.single g old h old' same
  | freed h asked held locks token =>
    simp only [List.append_nil]
    refine ⟨token ▸ kept.numbered, fun g => ?_, fun g there h' there' => ?_, fun g mem => ?_⟩
    · simp only [locks, List.mem_filter, decide_eq_true_eq, kept.held, Stands, List.mem_append,
        List.mem_singleton, not_or, and_assoc]
    · rw [locks] at there there'
      exact kept.single g (List.mem_filter.1 there).1 h' (List.mem_filter.1 there').1
    · rcases List.mem_append.1 mem with before | now
      · exact kept.once g before
      · cases List.mem_singleton.1 now
        exact ((kept.held h).1 held).1

/-- Who has a guard in hand makes no difference to the locks. -/
theorem Kept.hands {b : LockBook} (kept : b.Kept) (guards sent : List Grant) :
    Kept { b with guards, sent } := ⟨kept.numbered, kept.held, kept.single, kept.once⟩

theorem step_kept {b : LockBook} (kept : b.Kept) (a : Act) : (b.step a).Kept := by
  cases a with
  | move m => exact enter_kept kept m
  | guard name => exact (enter_kept kept _).hands _ _
  | lose g => exact kept.hands _ _
  | release g =>
    rw [step]
    split
    · exact (enter_kept kept _).hands _ _
    · exact kept
  | drop g =>
    rw [step]
    split
    · exact kept.hands _ _
    · exact kept
  | arrive g =>
    rw [step]
    split
    · exact (enter_kept kept _).hands _ _
    · exact kept

theorem run_kept (historyLimit : Nat) (acts : List Act) : ((opened historyLimit).run acts).Kept := by
  suffices h : ∀ b : LockBook, b.Kept → (b.run acts).Kept from h _ (opened_kept historyLimit)
  induction acts with
  | nil => exact fun _ kept => kept
  | cons a acts ih => exact fun b kept => ih _ (step_kept kept a)

/-- The lock of a standing handle is held under its token, and under no other. -/
theorem Kept.current_iff {b : LockBook} (kept : b.Kept) (g : Grant) :
    b.store.current g.name = some g.token ↔ b.Stands g := by
  rw [← kept.held, Store.current, Option.map_eq_some_iff]
  constructor
  · rintro ⟨h, found, token⟩
    have name : h.name = g.name := of_decide_eq_true (List.find?_some found :)
    have same : h = g := by
      cases h; cases g; cases name; cases token; rfl
    exact same ▸ List.mem_of_find?_eq_some found
  · intro held
    cases found : b.store.locks.find? (·.name = g.name) with
    | none => exact absurd (decide_eq_true rfl) (List.find?_eq_none.1 found g held)
    | some h =>
      have name : h.name = g.name := of_decide_eq_true (List.find?_some found :)
      have there := List.mem_of_find?_eq_some found
      exact ⟨h, rfl, congrArg _ (kept.single h there g held name)⟩

/-- Only an unlock with the handle itself ends its grant. -/
theorem enter_stands {b : LockBook} {m : Store.Move} {g : Grant} (stands : b.Stands g)
    (other : m ≠ .serve (.unlock g)) : (b.enter m).Stands g := by
  refine ⟨List.mem_append_left _ stands.1, fun gone => ?_⟩
  rcases List.mem_append.1 gone with before | now
  · exact stands.2 before
  · have change := b.store.step_locking m
    generalize b.store.handsOut m = out, b.store.takesBack m = back at change now
    cases change with
    | none | taken => cases now
    | freed h asked => exact other (List.mem_singleton.1 now ▸ asked)

theorem step_stands {b : LockBook} {a : Act} {g : Grant} (stands : b.Stands g)
    (other : ¬ a.Unlocks g) : (b.step a).Stands g := by
  have another {h : Grant} (ne : ¬ h = g) : Store.Move.serve (.unlock h) ≠ .serve (.unlock g) := by
    rintro ⟨⟩
    exact ne rfl
  cases a with
  | move m => exact enter_stands stands other
  | guard name => exact enter_stands (b := b) stands nofun
  | lose h => exact stands
  | release h =>
    rw [step]
    split
    · exact enter_stands (b := b) stands (another other)
    · exact stands
  | drop h =>
    rw [step]
    split <;> exact stands
  | arrive h =>
    rw [step]
    split
    · exact enter_stands (b := b) stands (another other)
    · exact stands

/-- What holds of the locks at every moment. -/
structure Exclusive (b : LockBook) : Prop where
  /-- No token is issued twice. -/
  tokens : (b.issued.map (·.token)).Nodup
  single (g h : Grant) : b.Stands g → b.Stands h → g.name = h.name → g = h
  locked (name : String) : b.store.isLocked name = true ↔ ∃ g, b.Stands g ∧ g.name = name
  current (g : Grant) : b.store.current g.name = some g.token ↔ b.Stands g
  /-- The current handle frees its lock, and no other. -/
  frees (g : Grant) : b.store.current g.name = some g.token → (b.store.unlock g).1 = .ok () ∧
    (b.store.unlock g).2.isLocked g.name = false ∧
    ∀ name, name ≠ g.name → (b.store.unlock g).2.current name = b.store.current name
  /-- Any other handle is turned away. -/
  refuses (g : Grant) : b.store.current g.name ≠ some g.token → b.store.unlock g =
    (.error (.internal ("lock " ++ g.name ++ " is not held by this session")), b.store)
  /-- A lock is held until it is unlocked with its own handle. -/
  lasts (a : Act) (g : Grant) : b.Stands g → ¬ a.Unlocks g → (b.step a).Stands g

theorem Kept.exclusive {b : LockBook} (kept : b.Kept) : b.Exclusive where
  tokens := kept.numbered ▸ List.nodup_range'
  single g h stands stands' := kept.single g ((kept.held g).2 stands) h ((kept.held h).2 stands')
  locked name := by
    simp only [Store.isLocked, List.any_eq_true, decide_eq_true_eq, kept.held]
  current := kept.current_iff
  frees g now := by
    have held := (kept.held g).2 ((kept.current_iff g).1 now)
    refine ⟨congrArg Prod.fst (Store.unlock_held held), ?_, fun _ => Store.current_unlock held⟩
    rw [Store.unlock_held held, Store.isLocked, List.any_eq_false]
    intro h mem same
    obtain ⟨there, ne⟩ := List.mem_filter.1 mem
    exact of_decide_eq_true ne (kept.single h there g held (of_decide_eq_true same))
  refuses g past :=
    Store.unlock_strange fun held => past ((kept.current_iff g).2 ((kept.held g).1 held))
  lasts _ _ := step_stands

/-- Whatever clients ask for, with whatever handles, and in whatever order their guards are released or
dropped: the locks exclude each other, and an old handle does nothing to a newer holder's lock. -/
theorem run_exclusive (historyLimit : Nat) (acts : List Act) :
    ((opened historyLimit).run acts).Exclusive := (run_kept historyLimit acts).exclusive

/-- The unlock of a guard that was dropped by its first holder, sent once more after the second has come. -/
example : ((opened 1).run [.guard "m", .drop ⟨"m", 1⟩, .arrive ⟨"m", 1⟩, .guard "m",
    .move (.serve (.unlock ⟨"m", 1⟩))]).store.locks = [⟨"m", 2⟩] := by decide

end LockBook

end NetPool
