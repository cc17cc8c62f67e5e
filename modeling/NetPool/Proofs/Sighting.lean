import NetPool.Proofs.Scene
import NetPool.Proofs.Store.Change

/-! Callers that learn of entries and remove some of them later, each by its key alone. By then the entry
may be gone, and another one may stand under its key. -/

namespace NetPool

namespace Store

/-- No entry was written after the last write. -/
structure Dated (s : Store) : Prop where
  ascending : Ascending s.entries
  past : ∀ e ∈ s.entries, e.modified ≤ s.revision

/-- The entry has stood in the store. Under its key there is no other one but what was written later. -/
structure Stood (s : Store) (d : KeyValue) : Prop where
  past : d.modified ≤ s.revision
  later : ∀ e ∈ s.entries, e.key = d.key → e = d ∨ d.modified < e.modified

/-- An entry is gone, and another one was written under its key. -/
structure Replaced (s : Store) (d e : KeyValue) : Prop where
  gone : d ∉ s.entries
  key : e.key = d.key
  later : d.modified < e.modified

/-- An answer to a request. If it is lost, the request may have had its effect or not. -/
def Answered (s : Store) (r : StoreRequest) (x : Except StoreError r.Result) (t : Store) : Prop :=
  ((s.serve r).1 = some x ∧ t = (s.serve r).2) ∨ (∃ e, x = .error e) ∧ (t = s ∨ t = (s.serve r).2)

variable {s t : Store} {r : StoreRequest} {x : Except StoreError r.Result} {d e : KeyValue}

theorem empty_dated (limit : Nat) : (empty limit).Dated := ⟨.nil, nofun⟩

theorem Dated.served (dated : s.Dated) (r : StoreRequest) : (s.serve r).2.Dated := by
  refine ⟨serve_ascending dated.ascending r, fun e mem => ?_⟩
  rcases s.serve_cases r with same | ⟨key, value, _, written⟩ | ⟨gone, _, _, erased⟩
  · rw [same.revision]
    exact dated.past e (same.entries ▸ mem)
  · rw [written] at mem ⊢
    rcases (mem_write dated.ascending).1 mem with rfl | ⟨old, _⟩
    · exact Nat.le_refl _
    · exact Nat.le_succ_of_le (dated.past e old)
  · rw [erased] at mem ⊢
    exact Nat.le_succ_of_le (dated.past e (mem_erase.1 mem).1)

theorem Dated.stood (dated : s.Dated) (mem : d ∈ s.entries) : s.Stood d :=
  ⟨dated.past d mem, fun _ here key => .inl (dated.ascending.eq_of_key here mem key)⟩

theorem Stood.served (dated : s.Dated) (stood : s.Stood d) (r : StoreRequest) : (s.serve r).2.Stood d := by
  rcases s.serve_cases r with same | ⟨key, value, _, written⟩ | ⟨gone, _, _, erased⟩
  · exact ⟨same.revision ▸ stood.past, fun e mem => stood.later e (same.entries ▸ mem)⟩
  · rw [written]
    refine ⟨Nat.le_succ_of_le stood.past, fun e mem key => ?_⟩
    rcases (mem_write dated.ascending).1 mem with rfl | ⟨old, _⟩
    · exact .inr (Nat.lt_succ_of_le stood.past)
    · exact stood.later e old key
  · rw [erased]
    exact ⟨Nat.le_succ_of_le stood.past, fun e mem => stood.later e (mem_erase.1 mem).1⟩

/-- What stands under the key of an entry that has stood there. -/
theorem Stood.replaced (dated : s.Dated) (stood : s.Stood d) (mem : e ∈ s.entries) (key : e.key = d.key) :
    e = d ∨ s.Replaced d e := by
  rcases stood.later e mem key with same | later
  · exact .inl same
  · refine .inr ⟨fun here => ?_, key, later⟩
    cases dated.ascending.eq_of_key here mem key.symm
    exact Nat.lt_irrefl _ later

theorem Answered.cases (answer : s.Answered r x t) : t = s ∨ t = (s.serve r).2 := by
  rcases answer with ⟨_, same⟩ | ⟨_, same⟩
  · exact .inr same
  · exact same

theorem Answered.dated (answer : s.Answered r x t) (dated : s.Dated) : t.Dated := by
  rcases answer.cases with rfl | rfl
  · exact dated
  · exact dated.served r

theorem Answered.stood (answer : s.Answered r x t) (dated : s.Dated) (stood : s.Stood d) : t.Stood d := by
  rcases answer.cases with rfl | rfl
  · exact stood
  · exact stood.served dated r

theorem Answered.keeps (answer : s.Answered r x t) (dated : s.Dated) (removes : r.removes = false)
    (mem : e ∈ s.entries) : e ∈ t.entries := by
  rcases answer.cases with rfl | rfl
  · exact mem
  · exact mem_serve_of_mem dated.ascending removes mem

theorem Answered.deletes {key : String} {x : Except StoreError Bool} (answer : s.Answered (.delete key) x t)
    (mem : e ∈ s.entries) (gone : e ∉ t.entries) : e.key = key := by
  rcases answer.cases with rfl | rfl
  · exact absurd mem gone
  · rcases s.serve_cases (.delete key) with same | ⟨_, _, writes, _⟩ | ⟨f, erases, _, erased⟩
    · exact absurd (same.entries.symm ▸ mem) gone
    · rcases writes with ⟨same, _⟩ | same <;> cases same
    · rcases erases with same | same <;> cases same
      rw [erased] at gone
      exact Decidable.byContradiction fun other => gone (mem_erase.2 ⟨mem, other⟩)

theorem Answered.created {key : String} {value : Bytes} {revision : Nat}
    (answer : s.Answered (.create key value) (.ok (.created revision)) t) :
    s.find? key = none ∧ t = s.write key value := by
  rcases answer with ⟨served, rfl⟩ | ⟨⟨_, lost⟩, _⟩
  · exact serve_created served
  · cases lost

theorem Answered.range {start : String} {found : Snapshot}
    (answer : s.Answered (.range start) (.ok found) t) (dated : s.Dated) :
    found.entries = s.entries.filter (startsWith ·.key start) := by
  rcases answer with ⟨served, _⟩ | ⟨⟨_, lost⟩, _⟩
  · exact range_found dated.ascending served
  · cases lost

theorem Answered.get {key : String} {found : Option KeyValue}
    (answer : s.Answered (.get key) (.ok found) t) : found = s.find? key := by
  rcases answer with ⟨served, _⟩ | ⟨⟨_, lost⟩, _⟩
  · exact get_found served
  · cases lost

/-- An answer to any request. Only those to the store can change it. -/
def Took (s : Store) : (r : Request) → r.Answer → Store → Prop
  | .store r, x, t => s.Answered r x t
  | _, _, t => t = s

theorem Took.dated {r : Request} {x : r.Answer} (took : s.Took r x t) (dated : s.Dated) : t.Dated := by
  cases r with
  | store r => exact Answered.dated took dated
  | cache | chore | now | instant | sleep | pick | isLive | apply => exact (show t = s from took) ▸ dated

theorem Took.stood {r : Request} {x : r.Answer} (took : s.Took r x t) (dated : s.Dated) (stood : s.Stood d) :
    t.Stood d := by
  cases r with
  | store r => exact Answered.stood took dated stood
  | cache | chore | now | instant | sleep | pick | isLive | apply => exact (show t = s from took) ▸ stood

end Store

/-- What a caller knows: the entries that he has read last, the one that he has created last, and the
workloads that he has been told are gone since he read. -/
structure Knowledge where
  seen : List KeyValue
  made : Option KeyValue
  gone : List String

namespace Knowledge

def none : Knowledge := ⟨[], .none, []⟩

/-- What an answer adds, with the store after it. -/
def learn (k : Knowledge) (store : Store) : (r : Request) → r.Answer → Knowledge
  | .store (.range _), .ok found => { k with seen := found.entries, gone := [] }
  | .store (.get _), .ok found => { k with seen := found.toList, gone := [] }
  | .store (.create key _), .ok (.created _) => { k with made := store.find? key }
  | .isLive workload, false => { k with gone := workload :: k.gone }
  | _, _ => k

def entries (k : Knowledge) : List KeyValue := k.made.toList ++ k.seen

variable {k : Knowledge} {d : KeyValue}

theorem mem_entries : d ∈ k.entries ↔ k.made = some d ∨ d ∈ k.seen := by
  rw [entries, List.mem_append, Option.mem_toList]

/-- Whatever is new has been in the store. -/
theorem mem_learn {s t : Store} {r : Request} {x : r.Answer} (dated : s.Dated) (took : s.Took r x t)
    (mem : d ∈ (k.learn t r x).entries) : d ∈ k.entries ∨ t.Stood d := by
  have read (here : d ∈ s.entries) : t.Stood d := took.stood dated (dated.stood here)
  unfold learn at mem
  split at mem
  · rename_i found
    rcases mem_entries.1 mem with made | seen
    · exact .inl (mem_entries.2 (.inl made))
    · rw [Store.Answered.range took dated] at seen
      exact .inr (read (List.mem_filter.1 seen).1)
  · rename_i found
    rcases mem_entries.1 mem with made | seen
    · exact .inl (mem_entries.2 (.inl made))
    · rw [Store.Answered.get took] at seen
      exact .inr (read ((Store.find?_eq_some_iff dated.ascending).1 (Option.mem_toList.1 seen)).1)
  · have after := took.dated dated
    rcases mem_entries.1 mem with made | seen
    · exact .inr (after.stood ((Store.find?_eq_some_iff after.ascending).1 made).1)
    · exact .inl (mem_entries.2 (.inr seen))
  · exact .inl mem
  · exact .inl mem

end Knowledge

/-- A store, and what each caller knows. -/
structure Sighting (ι : Type) where
  store : Store
  known : ι → Knowledge

namespace Sighting

variable {ι : Type}

structure Sound (s : Sighting ι) : Prop where
  dated : s.store.Dated
  stood : ∀ i, ∀ d ∈ (s.known i).entries, s.store.Stood d

/-- Nobody knows anything, and nothing is there. -/
def blank : Sighting ι := ⟨.empty 100, fun _ => .none⟩

theorem blank_sound : (blank : Sighting ι).Sound := ⟨Store.empty_dated 100, fun _ => nofun⟩

/-- Anybody else has made a request to the store. -/
def Moved (s t : Sighting ι) : Prop := t.known = s.known ∧ ∃ r, t.store = (s.store.serve r).2

/-- By what a caller knows, an entry is a reason to remove what stands under a key. -/
abbrev Grounds := Knowledge → KeyValue → String → Prop

/-- What a request removes, it removes by its key, and for a reason. -/
def Removes (grounds : Grounds) (i : ι) (s : Sighting ι) (r : Request) (t : Sighting ι) : Prop :=
  ∀ e ∈ s.store.entries, e ∉ t.store.entries →
    r = .store (.delete e.key) ∧ ∃ d ∈ (s.known i).entries, grounds (s.known i) d e.key

variable {i j : ι} {s t u : Sighting ι} {r : Request} {x : r.Answer} {d e : KeyValue} {grounds : Grounds}

theorem Sound.moved (sound : s.Sound) (moved : Moved s t) : t.Sound := by
  obtain ⟨known, r, store⟩ := moved
  refine ⟨store ▸ sound.dated.served r, fun i d mem => ?_⟩
  rw [store]
  exact (sound.stood i d (known ▸ mem)).served sound.dated r

variable [DecidableEq ι]

/-- After an answer to a caller. -/
def after (s : Sighting ι) (i : ι) (r : Request) (x : r.Answer) (store : Store) : Sighting ι where
  store := store
  known j := if j = i then (s.known i).learn store r x else s.known j

def Answers (i : ι) (s : Sighting ι) (r : Request) (x : r.Answer) (t : Sighting ι) : Prop :=
  s.store.Took r x t.store ∧ t = s.after i r x t.store

/-- An answer that is computed; somebody picks the numbers and knows which workloads are alive. -/
def reply (pick : (bound : Nat) → Fin (bound + 1)) (live : String → Bool) (i : ι) (s : Sighting ι) :
    (r : Request) → Option (r.Answer × Sighting ι)
  | .store r => (s.store.serve r).1.map fun x => (x, s.after i (.store r) x (s.store.serve r).2)
  | .pick bound => some (pick bound, s.after i (.pick bound) (pick bound) s.store)
  | .isLive workload => some (live workload, s.after i (.isLive workload) (live workload) s.store)
  | _ => none

theorem reply_answers {pick : (bound : Nat) → Fin (bound + 1)} {live : String → Bool}
    (answered : reply pick live i s r = some (x, t)) : Answers i s r x t := by
  cases r with
  | store r =>
    obtain ⟨y, served, same⟩ := Option.map_eq_some_iff.1 answered
    cases same
    exact ⟨.inl ⟨served, rfl⟩, rfl⟩
  | pick | isLive =>
    cases answered
    exact ⟨rfl, rfl⟩
  | cache | chore | now | instant | sleep | apply => cases answered

theorem Answers.known (answer : Answers i s r x t) : t.known i = (s.known i).learn t.store r x := by
  rw [answer.2]
  exact if_pos rfl

theorem Answers.others (answer : Answers i s r x t) (other : j ≠ i) : t.known j = s.known j := by
  rw [answer.2]
  exact if_neg other

theorem Sound.answered (sound : s.Sound) (answer : Answers i s r x t) : t.Sound := by
  have kept {j : ι} {d : KeyValue} (mem : d ∈ (s.known j).entries) : t.store.Stood d :=
    answer.1.stood sound.dated (sound.stood j d mem)
  refine ⟨answer.1.dated sound.dated, fun j d mem => ?_⟩
  by_cases same : j = i
  · subst same
    rw [answer.known] at mem
    exact (Knowledge.mem_learn sound.dated answer.1 mem).elim kept id
  · rw [answer.others same] at mem
    exact kept mem

/-- Requests that cannot remove anything. -/
def harmless : Request → Bool
  | .store r => !r.removes
  | _ => true

theorem Answers.removes_nothing (answer : Answers i s r x t) (sound : s.Sound) (plain : harmless r = true) :
    Removes grounds i s r t := by
  intro e mem gone
  refine absurd ?_ gone
  cases r with
  | store r =>
    exact Store.Answered.keeps answer.1 sound.dated (by simpa [harmless] using plain) mem
  | cache | chore | now | instant | sleep | pick | isLive | apply =>
    exact (show t.store = s.store from answer.1) ▸ mem

theorem Answers.removes {key : String} {x : Except StoreError Bool}
    (answer : Answers i s (.store (.delete key)) x t) (mem : d ∈ (s.known i).entries)
    (reason : grounds (s.known i) d key) : Removes grounds i s (.store (.delete key)) t := by
  intro e here gone
  have same : e.key = key := Store.Answered.deletes answer.1 here gone
  exact ⟨by rw [same], d, mem, same.symm ▸ reason⟩

/-- The terms of a caller who removes for these reasons; what he knows is his own. -/
def terms (grounds : Grounds) (i : ι) : Terms (Sighting ι) where
  answers := Answers i
  valid := Sound
  rely s t := t.known i = s.known i
  guarantee s r t := Removes grounds i s r t ∧ ∀ j, j ≠ i → t.known j = s.known j
  refl _ := rfl
  trans first second := second.trans first

variable {α β : Type}

/-- What is known of a caller's knowledge others leave as it is. -/
theorem stable {P : Knowledge → Prop} : (terms grounds i).Stable fun s => P (s.known i) := by
  intro s t (same : t.known i = s.known i) known
  rwa [same]

theorem asked (sound : s.Sound) (answer : Answers i s r x t) (removes : Removes grounds i s r t) :
    (terms grounds i).valid t ∧ (terms grounds i).guarantee s r t :=
  ⟨sound.answered answer, removes, fun _ other => answer.others other⟩

/-- A request to the store, with what is known after it. -/
theorem stored {r : StoreRequest} {f : r.Result → Program (Except Failure β)}
    (after : r.Result → Knowledge → Prop)
    (removes : ∀ {t x u}, t.known i = s.known i → t.Sound → Answers i t (.store r) x u →
      Removes grounds i t (.store r) u)
    (learns : ∀ {t x u}, t.known i = s.known i → t.Sound → Answers i t (.store r) (.ok x) u →
      after x (u.known i))
    (rest : ∀ {x u}, u.Sound → after x (u.known i) → Safe (terms grounds i) (fun _ _ => True) (f x) u) :
    Safe (terms grounds i) (fun _ _ => True) (.ask (.store r) (Program.onwardStored f)) s := by
  intro t rely sound x u answer
  obtain ⟨valid, done⟩ := asked sound answer (removes rely sound answer)
  refine ⟨valid, done, ?_⟩
  cases x with
  | error e => exact fun _ _ _ => trivial
  | ok x => exact rest valid (learns rely sound answer)

/-! Callers on a stage of such calls, each with a kind of call of his own; whatever else happens to the
store. -/

variable {κ : Type} {program : κ → Program α} {duty : ι → κ}

def stage (program : κ → Program α) (duty : ι → κ) : Stage (Sighting ι) ι κ α where
  program := program
  allowed i k := k = duty i
  answers := Answers
  moves := Moved

def agreement (program : κ → Program α) (duty : ι → κ) (grounds : κ → Grounds) :
    Agreement (stage program duty) where
  valid := Sound
  rely i s t := t.known i = s.known i
  does i s r t := Removes (grounds (duty i)) i s r t
  idle _ _ := True
  fact _ _ _ := True
  refl _ _ := rfl
  trans first second := second.trans first
  idle_rely _ := id
  lasts _ := id
  moves sound moved := ⟨sound.moved moved, fun _ _ => id, fun i => congrFun moved.1 i⟩

/-- Whatever an answer removes, the caller knows of an entry that is his reason. It is the one that is
removed, unless this was written after the other had gone, or has another key. -/
theorem removed_for_reason {grounds : κ → Grounds} (careful : ∀ k i (s : Sighting ι), s.Sound →
      Safe (terms (grounds k) i) (fun _ _ => True) (program k) s)
    (sound : s.Sound) {c : Scene (Sighting ι) ι κ α} (reached : Scene.Reached (stage program duty) s c)
    {k : κ} {next : r.Answer → Program α} (waits : c.running i = some (k, .ask r next))
    (answer : Answers i c.shared r x t) (mem : e ∈ c.shared.store.entries) (gone : e ∉ t.store.entries) :
    r = .store (.delete e.key) ∧ ∃ d ∈ (c.shared.known i).entries,
      grounds k (c.shared.known i) d e.key ∧ (e.key = d.key → e = d ∨ c.shared.store.Replaced d e) := by
  have kept : (agreement program duty grounds).Kept := by
    rintro i _ s rfl sound -
    exact (careful (duty i) i s sound).weaken fun _ _ _ _ => ⟨trivial, trivial⟩
  have right := Agreement.reached_right kept sound (fun _ => trivial) reached
  obtain ⟨request, d, known, reason⟩ := right.does waits answer e mem gone
  -- The promise is about the caller's duty, which is the call under way.
  cases reached.allowed waits
  exact ⟨request, d, known, reason, fun key =>
    (right.valid.stood i d known).replaced right.valid.dated mem key⟩

/-! Runs that are played, in which every caller does his duty. -/

def dutiful [DecidableEq κ] (duty : ι → κ) : Scene.Turn ι κ → Bool
  | .call i k => k = duty i
  | _ => true

/-- A run after which the next answer to a caller removes an entry. -/
theorem removal_played [DecidableEq κ] (program : κ → Program α) (duty : ι → κ) (s : Sighting ι)
    (pick : (bound : Nat) → Fin (bound + 1)) (live : String → Bool) (turns : List (Scene.Turn ι κ))
    (i : ι) (e : KeyValue) (all : turns.all (dutiful duty) = true)
    (run : (((Scene.opening s).play (stage program duty) (reply pick live) turns).any fun c =>
      e ∈ c.shared.store.entries && (c.turned (stage program duty) (reply pick live) (.answer i)).any
        fun d => e ∉ d.shared.store.entries) = true) :
    ∃ c r next x t, Scene.Reached (stage program duty) s c ∧
      c.running i = some (duty i, .ask r next) ∧ Answers i c.shared r x t ∧
      e ∈ c.shared.store.entries ∧ e ∉ t.store.entries := by
  obtain ⟨c, played, facts⟩ := (Option.any_eq_true _ _).1 run
  simp only [Bool.and_eq_true, decide_eq_true_eq] at facts
  obtain ⟨here, facts⟩ := facts
  obtain ⟨d, turned, gone⟩ := (Option.any_eq_true _ _).1 facts
  have reached : Scene.Reached (stage program duty) s c := by
    refine Scene.play_reached (fun _ => reply_answers) (fun j k mem => ?_) .opening played
    have done : k = duty j := of_decide_eq_true (List.all_eq_true.1 all (.call j k) mem)
    exact done
  obtain ⟨k, r, next, x, waits, answered⟩ := Scene.turned_answer turned
  cases reached.allowed waits
  exact ⟨c, r, next, x, d.shared, reached, waits, reply_answers answered, here, of_decide_eq_true gone⟩

end Sighting

end NetPool
