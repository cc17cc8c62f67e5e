import NetPool.Proofs.Pin.Earliest
import NetPool.Proofs.Scene
import NetPool.Proofs.Store.Change

/-! Callers that pin addresses of one pool to workloads. Nothing is locked: a caller who has created an
entry may find that another one counts, and delete his own. The entry that counts is never deleted. -/

namespace NetPool

structure Pinning (ι : Type) where
  store : Store
  /-- The key that a caller has created last, unless he has deleted it since. -/
  own : ι → Option String

namespace Pinning

variable {ι : Type}

/-- The key that a caller has created last, by the answer to a request of his. -/
def holding (before : Option String) (r : StoreRequest) (x : Except StoreError r.Result) : Option String :=
  match r.wrote x with
  | none => before
  | some key => if r.adds then some key else none

/-- What a caller promises of a request to the store. -/
def Intends (p : PinPool) (i : ι) (s : Pinning ι) : StoreRequest → Prop
  | .create key value => ∃ a owner workload, key = p.key a ∧ value = PinPool.record owner workload
  | .delete key => s.own i = some key ∧ ∃ workload mine first, mine ∈ s.store.entries ∧
      mine.key = key ∧ p.Pins workload mine ∧ p.First s.store.entries workload first ∧ first.key ≠ key
  | .put _ _ => False
  | .compareAndDelete _ _ => False
  | _ => True

structure Sound (p : PinPool) (s : Pinning ι) : Prop where
  ascending : Store.Ascending s.store.entries
  dated : ∀ e ∈ s.store.entries, e.created ≤ s.store.revision
  canonical : ∀ e ∈ s.store.entries, startsWith e.key p.start = true →
    ∀ c, FixedClaim.ofEntry p.layout e = .ok c → p.key c.address = e.key
  owned : ∀ i key, s.own i = some key → ∃ e ∈ s.store.entries, e.key = key
  apart : ∀ i j key, s.own i = some key → s.own j = some key → i = j

/-- As much of this as does not depend on the claims that stood in the store at first. -/
structure Orderly (s : Pinning ι) : Prop where
  ascending : Store.Ascending s.store.entries
  dated : ∀ e ∈ s.store.entries, e.created ≤ s.store.revision
  owned : ∀ i key, s.own i = some key → ∃ e ∈ s.store.entries, e.key = key
  apart : ∀ i j key, s.own i = some key → s.own j = some key → i = j

theorem Sound.orderly {p : PinPool} {s : Pinning ι} (sound : Sound p s) : Orderly s :=
  ⟨sound.ascending, sound.dated, sound.owned, sound.apart⟩

/-- What others leave to a caller: the entries that count, and his own. -/
structure Rely (p : PinPool) (i : ι) (s t : Pinning ι) : Prop where
  own : t.own i = s.own i
  lasts : ∀ w e, p.First s.store.entries w e → p.First t.store.entries w e
  kept : ∀ e ∈ s.store.entries, s.own i = some e.key → e ∈ t.store.entries

theorem Rely.refl {p : PinPool} (i : ι) (s : Pinning ι) : Rely p i s s :=
  ⟨rfl, fun _ _ => id, fun _ mem _ => mem⟩

theorem Rely.trans {p : PinPool} {i : ι} {s t u : Pinning ι} (first : Rely p i s t)
    (second : Rely p i t u) : Rely p i s u :=
  ⟨second.own.trans first.own, fun w e here => second.lasts w e (first.lasts w e here),
    fun e mem own => second.kept e (first.kept e mem own) (first.own.trans own)⟩

/-- What a request to the store does, if it is as intended. -/
inductive Effect (p : PinPool) (i : ι) (s t : Pinning ι) : Prop
  | nothing (entries : t.store.entries = s.store.entries)
      (revision : t.store.revision = s.store.revision) (own : t.own i = s.own i)
  | created (new : KeyValue) (a : Address) (owner workload : String) (key : new.key = p.key a)
      (value : new.value = PinPool.record owner workload) (date : new.created = s.store.revision + 1)
      (free : ∀ e ∈ s.store.entries, e.key ≠ new.key)
      (entries : ∀ e, e ∈ t.store.entries ↔ e = new ∨ e ∈ s.store.entries)
      (revision : t.store.revision = s.store.revision + 1) (own : t.own i = some new.key)
  | deleted (gone first : KeyValue) (workload : String) (here : gone ∈ s.store.entries)
      (mine : s.own i = some gone.key) (pins : p.Pins workload gone)
      (counts : p.First s.store.entries workload first) (other : first ≠ gone)
      (entries : ∀ e, e ∈ t.store.entries ↔ e ∈ s.store.entries ∧ e.key ≠ gone.key)
      (revision : t.store.revision = s.store.revision + 1) (own : t.own i = none)

variable [DecidableEq ι]

def served (s : Pinning ι) (i : ι) (r : StoreRequest) (x : Except StoreError r.Result) (store : Store) :
    Pinning ι where
  store := store
  own j := if j = i then holding (s.own i) r x else s.own j

/-- An answer to a request. A request to the store may be lost. -/
def Answers (i : ι) (s : Pinning ι) : (r : Request) → r.Answer → Pinning ι → Prop
  | .store r, x, t => ((s.store.serve r).1 = some x ∧ t = s.served i r x (s.store.serve r).2) ∨
      (∃ e, x = .error e) ∧ t = s
  | _, _, t => t = s

/-- An answer that is computed, with a rule for the numbers to pick. -/
def reply (pick : ι → (bound : Nat) → Fin (bound + 1)) (i : ι) (s : Pinning ι) :
    (r : Request) → Option (r.Answer × Pinning ι)
  | .store r => (s.store.serve r).1.map fun x => (x, s.served i r x (s.store.serve r).2)
  | .sleep _ => some ((), s)
  | .pick bound => some (pick i bound, s)
  | _ => none

theorem reply_answers {pick : ι → (bound : Nat) → Fin (bound + 1)} {i : ι} {s t : Pinning ι}
    {r : Request} {x : r.Answer} (answered : reply pick i s r = some (x, t)) : Answers i s r x t := by
  cases r with
  | store r =>
    obtain ⟨y, served, same⟩ := Option.map_eq_some_iff.1 answered
    cases same
    exact .inl ⟨served, rfl⟩
  | sleep | pick =>
    cases answered
    exact rfl
  | cache | chore | now | instant | isLive | apply => cases answered

variable {p : PinPool} {i j : ι} {s t : Pinning ι} {r : StoreRequest} {x : Except StoreError r.Result}

theorem own_served {store : Store} : (s.served i r x store).own i = holding (s.own i) r x := if_pos rfl

theorem effect_served (orderly : Orderly s) (intends : s.Intends p i r)
    (answer : (s.store.serve r).1 = some x) : Effect p i s (s.served i r x (s.store.serve r).2) := by
  rcases Store.serve_wrote answer with ⟨wrote, same⟩ | ⟨key, value, wrote, writes, written⟩ |
    ⟨gone, wrote, erases, found, erased⟩
  · refine .nothing same.entries same.revision ?_
    rw [own_served, holding, wrote]
  · rcases writes with ⟨rfl, free⟩ | rfl
    · obtain ⟨a, owner, workload, rfl, rfl⟩ := intends
      have absent : ∀ e ∈ s.store.entries, e.key ≠ p.key a := by
        intro e mem same
        rw [(Store.find?_eq_some_iff orderly.ascending).2 ⟨mem, same⟩] at free
        cases free
      refine .created (s.store.written (p.key a) (PinPool.record owner workload)) a owner workload rfl rfl
        ?_ absent (fun e => ?_) (congrArg Store.revision written) ?_
      · simp [Store.written, free]
      · rw [served, written, Store.mem_write orderly.ascending]
        exact or_congr_right ⟨And.left, fun mem => ⟨mem, absent e mem⟩⟩
      · rw [own_served, holding, wrote]
        rfl
    · cases intends
  · rcases erases with rfl | rfl
    · obtain ⟨mine, workload, entry, first, here, same, pins, counts, other⟩ := intends
      have there := (Store.find?_eq_some_iff orderly.ascending).1 found
      cases orderly.ascending.eq_of_key here there.1 same
      refine .deleted gone first workload there.1 mine pins counts (fun h => other (h ▸ rfl)) (fun e => ?_)
        (congrArg Store.revision erased) ?_
      · rw [served, erased, Store.mem_erase]
      · rw [own_served, holding, wrote]
        rfl
    · cases intends

omit [DecidableEq ι] in
theorem Effect.first (effect : Effect p i s t) (orderly : Orderly s) {w : String} {e : KeyValue}
    (first : p.First s.store.entries w e) : p.First t.store.entries w e := by
  cases effect with
  | nothing entries => exact entries ▸ first
  | created new a owner workload _ _ date _ entries =>
    refine ⟨(entries e).2 (.inr first.mem), first.pins, fun f mem pins => ?_⟩
    rcases (entries f).1 mem with rfl | old
    · have early := orderly.dated e first.mem
      exact .inl (by omega)
    · exact first.least f old pins
  | deleted gone counts workload here _ pins firstOf other entries =>
    refine ⟨(entries e).2 ⟨first.mem, fun same => other ?_⟩, first.pins, fun f mem pins =>
      first.least f ((entries f).1 mem).1 pins⟩
    -- If it were the one deleted, another would count for the workload as well.
    cases orderly.ascending.eq_of_key first.mem here same
    cases first.pins.unique pins
    exact firstOf.unique orderly.ascending first

omit [DecidableEq ι] in
theorem Effect.kept (effect : Effect p i s t) (orderly : Orderly s) (other : j ≠ i) {e : KeyValue}
    (mem : e ∈ s.store.entries) (own : s.own j = some e.key) : e ∈ t.store.entries := by
  cases effect with
  | nothing entries => exact entries.symm ▸ mem
  | created _ _ _ _ _ _ _ _ entries => exact (entries e).2 (.inr mem)
  | deleted gone _ _ _ mine _ _ _ entries =>
    refine (entries e).2 ⟨mem, fun same => other ?_⟩
    exact orderly.apart j i gone.key (same ▸ own) mine

omit [DecidableEq ι] in
theorem Effect.canonical (effect : Effect p i s t) (sound : Sound p s) {e : KeyValue}
    (mem : e ∈ t.store.entries) (below : startsWith e.key p.start = true) {c : FixedClaim}
    (read : FixedClaim.ofEntry p.layout e = .ok c) : p.key c.address = e.key := by
  have old (here : e ∈ s.store.entries) := sound.canonical e here below c read
  cases effect with
  | nothing entries => exact old (entries ▸ mem)
  | created new a _ _ key _ _ _ entries =>
    rcases (entries e).1 mem with rfl | here
    · have slot := (FixedClaim.ofEntry_eq_ok.1 read).1
      rw [key] at slot
      obtain ⟨_, _, address⟩ := KeyLayout.parseFixedKey_fixedKey_eq_some.1 slot
      rw [address, key]
    · exact old here
  | deleted _ _ _ _ _ _ _ _ entries => exact old ((entries e).1 mem).1

omit [DecidableEq ι] in
theorem Effect.dated (effect : Effect p i s t) (orderly : Orderly s) {e : KeyValue}
    (mem : e ∈ t.store.entries) : e.created ≤ t.store.revision := by
  cases effect with
  | nothing entries revision => exact revision ▸ orderly.dated e (entries ▸ mem)
  | created new _ _ _ _ _ date _ entries revision =>
    rcases (entries e).1 mem with rfl | old
    · omega
    · have := orderly.dated e old
      omega
  | deleted _ _ _ _ _ _ _ _ entries revision =>
    have := orderly.dated e ((entries e).1 mem).1
    omega

omit [DecidableEq ι] in
/-- What a caller has created after a request he had created before, or its key was free. -/
theorem Effect.own (effect : Effect p i s t) {key : String} (own : t.own i = some key) :
    t.store.entries = s.store.entries ∧ s.own i = some key ∨
      (∀ e ∈ s.store.entries, e.key ≠ key) ∧ ∃ e ∈ t.store.entries, e.key = key := by
  cases effect with
  | nothing entries _ before => exact .inl ⟨entries, before ▸ own⟩
  | created new _ _ _ _ _ _ free entries _ after =>
    cases after.symm.trans own
    exact .inr ⟨free, new, (entries new).2 (.inl rfl), rfl⟩
  | deleted _ _ _ _ _ _ _ _ _ _ after =>
    rw [after] at own
    cases own

omit [DecidableEq ι] in
theorem Effect.orderly (effect : Effect p i s t) (orderly : Orderly s)
    (ascending : Store.Ascending t.store.entries) (others : ∀ j, j ≠ i → t.own j = s.own j) :
    Orderly t := by
  -- Nobody else has created a key that was free.
  have apart (j : ι) (key : String) (mine : t.own i = some key) (own : t.own j = some key) : j = i := by
    by_cases same : j = i
    · exact same
    · rw [others j same] at own
      rcases effect.own mine with ⟨_, before⟩ | ⟨free, _⟩
      · exact orderly.apart j i key own before
      · obtain ⟨e, mem, here⟩ := orderly.owned j key own
        exact absurd here (free e mem)
  refine ⟨ascending, fun e => effect.dated orderly, fun j key own => ?_, fun j k key first second => ?_⟩
  · by_cases same : j = i
    · subst same
      rcases effect.own own with ⟨entries, before⟩ | ⟨_, there⟩
      · exact entries.symm ▸ orderly.owned j key before
      · exact there
    · obtain ⟨e, mem, rfl⟩ := orderly.owned j key (others j same ▸ own)
      exact ⟨e, effect.kept orderly same mem (others j same ▸ own), rfl⟩
  · by_cases one : j = i
    · exact one.trans (apart k key (one ▸ first) second).symm
    · by_cases two : k = i
      · exact (apart j key (two ▸ second) first).trans two.symm
      · exact orderly.apart j k key (others j one ▸ first) (others k two ▸ second)

theorem Orderly.served (orderly : Orderly s) (intends : s.Intends p i r)
    (answer : (s.store.serve r).1 = some x) : Orderly (s.served i r x (s.store.serve r).2) :=
  (effect_served orderly intends answer).orderly orderly (Store.serve_ascending orderly.ascending r)
    fun _ other => if_neg other

theorem Orderly.rely (orderly : Orderly s) (intends : s.Intends p i r)
    (answer : (s.store.serve r).1 = some x) (other : j ≠ i) :
    Rely p j s (s.served i r x (s.store.serve r).2) :=
  have effect := effect_served orderly intends answer
  ⟨if_neg other, fun _ _ => effect.first orderly, fun _ => effect.kept orderly other⟩

theorem Answers.effect (answer : Answers i s (.store r) x t) (orderly : Orderly s)
    (intends : s.Intends p i r) : Effect p i s t := by
  rcases answer with ⟨served, rfl⟩ | ⟨_, rfl⟩
  · exact effect_served orderly intends served
  · exact .nothing rfl rfl rfl

theorem Answers.orderly (answer : Answers i s (.store r) x t) (orderly : Orderly s)
    (intends : s.Intends p i r) : Orderly t := by
  rcases answer with ⟨served, rfl⟩ | ⟨_, rfl⟩
  · exact orderly.served intends served
  · exact orderly

theorem Answers.rely (answer : Answers i s (.store r) x t) (orderly : Orderly s)
    (intends : s.Intends p i r) (other : j ≠ i) : Rely p j s t := by
  rcases answer with ⟨served, rfl⟩ | ⟨_, rfl⟩
  · exact orderly.rely intends served other
  · exact .refl j _

theorem Answers.keeps (answer : Answers i s (.store r) x t) (ascending : Store.Ascending s.store.entries)
    (removes : r.removes = false) {e : KeyValue} (mem : e ∈ s.store.entries) : e ∈ t.store.entries := by
  rcases answer with ⟨_, rfl⟩ | ⟨_, rfl⟩
  · exact Store.mem_serve_of_mem ascending removes mem
  · exact mem

theorem Answers.fewer (answer : Answers i s (.store r) x t) (adds : r.adds = false) {e : KeyValue}
    (mem : e ∈ t.store.entries) : e ∈ s.store.entries := by
  rcases answer with ⟨_, rfl⟩ | ⟨_, rfl⟩
  · exact Store.mem_of_mem_serve adds mem
  · exact mem

theorem Answers.unwritten (answer : Answers i s (.store r) x t) (wrote : r.wrote x = none) :
    t.store.entries = s.store.entries ∧ t.own = s.own := by
  rcases answer with ⟨served, rfl⟩ | ⟨_, rfl⟩
  · rcases Store.serve_wrote served with ⟨_, data⟩ | ⟨_, _, some, _⟩ | ⟨_, some, _⟩
    · refine ⟨data.entries, funext fun j => ?_⟩
      by_cases mine : j = i
      · rw [mine, own_served, holding, wrote]
      · exact if_neg mine
    · rw [wrote] at some
      cases some
    · rw [wrote] at some
      cases some
  · exact ⟨rfl, rfl⟩

theorem Sound.answered (sound : Sound p s) (answer : Answers i s (.store r) x t)
    (intends : s.Intends p i r) : Sound p t := by
  obtain ⟨ascending, dated, owned, apart⟩ := answer.orderly sound.orderly intends
  have effect := answer.effect sound.orderly intends
  exact ⟨ascending, dated, fun e mem below c => effect.canonical sound mem below, owned, apart⟩

end Pinning

end NetPool
