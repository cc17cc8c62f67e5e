import NetPool.Proofs.Interference

/-! Many callers on something shared. Each runs one call after the other, and their requests mingle in
any order. What each call is safe for among the others holds of the whole. -/

namespace NetPool

variable {σ ι κ α : Type}

/-- What a call does, how requests are answered, and what happens besides. -/
structure Stage (σ ι κ α : Type) where
  program : κ → Program α
  allowed : ι → κ → Prop
  answers : ι → σ → (r : Request) → r.Answer → σ → Prop
  moves : σ → σ → Prop

/-- What is shared, the calls under way, and those that have returned. -/
structure Scene (σ ι κ α : Type) where
  shared : σ
  running : ι → Option (κ × Program α)
  returned : List (ι × κ × α)

namespace Scene

variable [DecidableEq ι]

def opening (s : σ) : Scene σ ι κ α := ⟨s, fun _ => none, []⟩

def turn (c : Scene σ ι κ α) (i : ι) (p : Option (κ × Program α)) : Scene σ ι κ α :=
  { c with running := fun j => if j = i then p else c.running j }

inductive Step (w : Stage σ ι κ α) : Scene σ ι κ α → Scene σ ι κ α → Prop
  | called (c : Scene σ ι κ α) {i k} (idle : c.running i = none) (allowed : w.allowed i k) :
      Step w c (c.turn i (some (k, w.program k)))
  | answered (c : Scene σ ι κ α) {i k r next x t} (waits : c.running i = some (k, .ask r next))
      (answer : w.answers i c.shared r x t) :
      Step w c { c.turn i (some (k, next x)) with shared := t }
  | ended (c : Scene σ ι κ α) {i k a} (waits : c.running i = some (k, .pure a)) :
      Step w c { c.turn i none with returned := (i, k, a) :: c.returned }
  | moved (c : Scene σ ι κ α) {t} (move : w.moves c.shared t) : Step w c { c with shared := t }

/-- A run from a shared state in which nobody calls. -/
inductive Reached (w : Stage σ ι κ α) (s : σ) : Scene σ ι κ α → Prop
  | opening : Reached w s (opening s)
  | step {c d} (reached : Reached w s c) (step : Step w c d) : Reached w s d

/-- Only allowed calls are under way. -/
theorem Reached.allowed {w : Stage σ ι κ α} {s : σ} {c : Scene σ ι κ α} (reached : Reached w s c) {i : ι}
    {k : κ} {p : Program α} (waits : c.running i = some (k, p)) : w.allowed i k := by
  induction reached generalizing i k p with
  | opening => cases waits
  | step _ step ih =>
    cases step with
    | @called j l idle allowed =>
      by_cases same : i = j
      · subst same
        simp only [turn, if_true, Option.some.injEq, Prod.mk.injEq] at waits
        exact waits.1 ▸ allowed
      · exact ih (by simpa [turn, same] using waits)
    | @answered j l r next x t before answer =>
      by_cases same : i = j
      · subst same
        simp only [turn, if_true, Option.some.injEq, Prod.mk.injEq] at waits
        exact waits.1 ▸ ih before
      · exact ih (by simpa [turn, same] using waits)
    | @ended j l a before =>
      by_cases same : i = j
      · simp [turn, same] at waits
      · exact ih (by simpa [turn, same] using waits)
    | moved => exact ih waits

/-! Runs that are played turn by turn, with answers that are computed. -/

inductive Turn (ι κ : Type)
  | call (i : ι) (k : κ)
  | answer (i : ι)
  | finish (i : ι)

/-- The calls that some turns start. -/
def calls (turns : List (Turn ι κ)) : List (ι × κ) :=
  turns.filterMap fun
    | .call i k => some (i, k)
    | _ => none

omit [DecidableEq ι] in
theorem forall_calls {good : ι → κ → Prop} {turns : List (Turn ι κ)}
    (all : ∀ x ∈ calls turns, good x.1 x.2) (i : ι) (k : κ) (mem : .call i k ∈ turns) : good i k :=
  all (i, k) (List.mem_filterMap.2 ⟨_, mem, rfl⟩)

/-- The scene after a turn, if it is possible. -/
def turned (w : Stage σ ι κ α) (reply : ι → σ → (r : Request) → Option (r.Answer × σ))
    (c : Scene σ ι κ α) : Turn ι κ → Option (Scene σ ι κ α)
  | .call i k =>
    match c.running i with
    | none => some (c.turn i (some (k, w.program k)))
    | some _ => none
  | .answer i =>
    match c.running i with
    | some (k, .ask r next) => (reply i c.shared r).map fun x =>
      { c.turn i (some (k, next x.1)) with shared := x.2 }
    | _ => none
  | .finish i =>
    match c.running i with
    | some (k, .pure a) => some { c.turn i none with returned := (i, k, a) :: c.returned }
    | _ => none

def play (w : Stage σ ι κ α) (reply : ι → σ → (r : Request) → Option (r.Answer × σ)) :
    Scene σ ι κ α → List (Turn ι κ) → Option (Scene σ ι κ α)
  | c, [] => some c
  | c, turn :: rest => (c.turned w reply turn).bind fun d => play w reply d rest

theorem turned_step {w : Stage σ ι κ α} {reply : ι → σ → (r : Request) → Option (r.Answer × σ)}
    {c d : Scene σ ι κ α}
    (fits : ∀ {i r x t}, reply i c.shared r = some (x, t) → w.answers i c.shared r x t)
    {turn : Turn ι κ} (allowed : ∀ i k, turn = .call i k → w.allowed i k)
    (played : c.turned w reply turn = some d) : Step w c d := by
  unfold turned at played
  split at played
  · rename_i i k
    split at played
    · rename_i idle
      cases played
      exact .called c idle (allowed i k rfl)
    · cases played
  · split at played
    · rename_i waits
      obtain ⟨⟨x, t⟩, answered, rfl⟩ := Option.map_eq_some_iff.1 played
      exact .answered c waits (fits answered)
    · cases played
  · split at played
    · rename_i waits
      cases played
      exact .ended c waits
    · cases played

theorem turned_answer {w : Stage σ ι κ α} {reply : ι → σ → (r : Request) → Option (r.Answer × σ)}
    {c d : Scene σ ι κ α} {i : ι} (played : c.turned w reply (.answer i) = some d) :
    ∃ k r next x, c.running i = some (k, .ask r next) ∧ reply i c.shared r = some (x, d.shared) := by
  simp only [turned] at played
  split at played
  · rename_i k r next waits
    obtain ⟨⟨x, t⟩, answered, rfl⟩ := Option.map_eq_some_iff.1 played
    exact ⟨k, r, next, x, waits, answered⟩
  · cases played

/-- What is computed has to be an answer only where a run can get to. -/
theorem play_reached {w : Stage σ ι κ α} {reply : ι → σ → (r : Request) → Option (r.Answer × σ)} {s : σ}
    (fits : ∀ {c i r x t}, Reached w s c → reply i c.shared r = some (x, t) → w.answers i c.shared r x t)
    {turns : List (Turn ι κ)} (allowed : ∀ i k, .call i k ∈ turns → w.allowed i k)
    {c d : Scene σ ι κ α} (reached : Reached w s c) (played : c.play w reply turns = some d) :
    Reached w s d := by
  induction turns generalizing c with
  | nil =>
    cases played
    exact reached
  | cons turn rest ih =>
    obtain ⟨e, first, played⟩ := Option.bind_eq_some_iff.1 played
    have step : Step w c e := turned_step (fits reached) (fun i k same =>
      allowed i k (same ▸ List.mem_cons_self)) first
    exact ih (fun i k mem => allowed i k (List.mem_cons_of_mem turn mem)) (reached.step step) played

end Scene

/-- What the callers on a stage promise each other. Between two calls a caller is `idle`, what a request
of his `does` is told, and what a call comes to is a `fact` that lasts. -/
structure Agreement (w : Stage σ ι κ α) where
  valid : σ → Prop
  rely : ι → σ → σ → Prop
  does : ι → σ → Request → σ → Prop
  idle : ι → σ → Prop
  fact : κ → α → σ → Prop
  refl : ∀ i s, rely i s s
  trans : ∀ {i s t u}, rely i s t → rely i t u → rely i s u
  idle_rely : ∀ {i s t}, rely i s t → idle i s → idle i t
  lasts : ∀ {i s r t k a}, does i s r t → fact k a s → fact k a t
  moves : ∀ {s t}, valid s → w.moves s t →
    valid t ∧ (∀ k a, fact k a s → fact k a t) ∧ ∀ i, rely i s t

namespace Agreement

variable {w : Stage σ ι κ α} (a : Agreement w)

def terms (i : ι) : Terms σ where
  answers := w.answers i
  valid := a.valid
  rely := a.rely i
  guarantee := fun s r t => a.does i s r t ∧ ∀ j, j ≠ i → a.rely j s t
  refl := a.refl i
  trans := a.trans

/-- Every call is safe from any state in which its caller is idle. -/
def Kept : Prop := ∀ i k s, w.allowed i k → a.valid s → a.idle i s →
  Safe (a.terms i) (fun x t => a.idle i t ∧ a.fact k x t) (w.program k) s

structure Right (c : Scene σ ι κ α) : Prop where
  valid : a.valid c.shared
  idle : ∀ i, c.running i = none → a.idle i c.shared
  running : ∀ i k p, c.running i = some (k, p) →
    Safe (a.terms i) (fun x t => a.idle i t ∧ a.fact k x t) p c.shared
  returned : ∀ i k x, (i, k, x) ∈ c.returned → a.fact k x c.shared

variable {a} {c d : Scene σ ι κ α}

theorem opening_right {s : σ} (valid : a.valid s) (idle : ∀ i, a.idle i s) :
    a.Right (Scene.opening s) :=
  ⟨valid, fun i _ => idle i, nofun, nofun⟩

theorem Right.does (right : a.Right c) {i : ι} {k : κ} {r : Request} {next : r.Answer → Program α}
    (waits : c.running i = some (k, .ask r next)) {x : r.Answer} {t : σ}
    (answer : w.answers i c.shared r x t) : a.does i c.shared r t :=
  (right.running i k _ waits c.shared (a.refl i _) right.valid x t answer).2.1.1

variable [DecidableEq ι]

theorem Right.step (kept : a.Kept) (right : a.Right c) (step : Scene.Step w c d) : a.Right d := by
  cases step with
  | @called i k idle allowed =>
    refine ⟨right.valid, fun j none => ?_, fun j k p some => ?_, right.returned⟩
    · by_cases same : j = i
      · simp [Scene.turn, same] at none
      · exact right.idle j (by simpa [Scene.turn, same] using none)
    · by_cases same : j = i
      · subst same
        simp only [Scene.turn, if_true, Option.some.injEq, Prod.mk.injEq] at some
        obtain ⟨rfl, rfl⟩ := some
        exact kept j k c.shared allowed right.valid (right.idle j idle)
      · exact right.running j k p (by simpa [Scene.turn, same] using some)
  | @answered i k r next x t waits answer =>
    obtain ⟨valid, ⟨does, others⟩, rest⟩ :=
      right.running i _ _ waits c.shared (a.refl i _) right.valid x t answer
    refine ⟨valid, fun j none => ?_, fun j k p some => ?_,
      fun j k x mem => a.lasts does (right.returned j k x mem)⟩
    · by_cases same : j = i
      · simp [Scene.turn, same] at none
      · exact a.idle_rely (others j same) (right.idle j (by simpa [Scene.turn, same] using none))
    · by_cases same : j = i
      · subst same
        simp only [Scene.turn, if_true, Option.some.injEq, Prod.mk.injEq] at some
        obtain ⟨rfl, rfl⟩ := some
        exact rest
      · have before := right.running j k p (by simpa [Scene.turn, same] using some)
        exact before.later (others j same)
  | @ended i k x waits =>
    obtain ⟨idle, fact⟩ := right.running i k _ waits c.shared (a.refl i _) right.valid
    refine ⟨right.valid, fun j none => ?_, fun j k p some => ?_, fun j k y mem => ?_⟩
    · by_cases same : j = i
      · exact same ▸ idle
      · exact right.idle j (by simpa [Scene.turn, same] using none)
    · by_cases same : j = i
      · simp [Scene.turn, same] at some
      · exact right.running j k p (by simpa [Scene.turn, same] using some)
    · rcases List.mem_cons.1 mem with new | old
      · cases new
        exact fact
      · exact right.returned j k y old
  | moved move =>
    obtain ⟨valid, lasts, others⟩ := a.moves right.valid move
    exact ⟨valid, fun j none => a.idle_rely (others j) (right.idle j none),
      fun j k p some => (right.running j k p some).later (others j),
      fun j k x mem => lasts k x (right.returned j k x mem)⟩

/-- What is promised holds in every run. -/
theorem reached_right {s : σ} (kept : a.Kept) (valid : a.valid s) (idle : ∀ i, a.idle i s)
    (reached : Scene.Reached w s c) : a.Right c := by
  induction reached with
  | opening => exact opening_right valid idle
  | step _ step ih => exact ih.step kept step

/-- What each answer and each move keeps holds in every run as well. -/
theorem reached_keeps {P : σ → Prop} {s : σ} (kept : a.Kept) (valid : a.valid s)
    (idle : ∀ i, a.idle i s) (start : P s)
    (answered : ∀ {i s r x t}, a.valid s → P s → w.answers i s r x t → a.does i s r t → P t)
    (moved : ∀ {s t}, P s → w.moves s t → P t) (reached : Scene.Reached w s c) : P c.shared := by
  induction reached with
  | opening => exact start
  | step before step ih =>
    cases step with
    | called | ended => exact ih
    | answered waits answer =>
      have right := reached_right kept valid idle before
      exact answered right.valid ih answer (right.does waits answer)
    | moved move => exact moved ih move

end Agreement

end NetPool
