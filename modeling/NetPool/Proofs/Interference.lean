import NetPool.Allocation.Retry

/-! A program among others. Between two of its requests anything may happen to what is shared that
`rely` allows, and each request may be answered in any way that `answers` allows. `Safe` says that
nevertheless all of its requests keep to the terms, and that a result it comes to is right and stays
right. -/

namespace NetPool

/-- The terms on which a program runs among others. -/
structure Terms (σ : Type) where
  /-- An answer to a request, between what was shared before and what is shared after it. -/
  answers : σ → (r : Request) → r.Answer → σ → Prop
  /-- What all keep. -/
  valid : σ → Prop
  /-- What others may do between two requests. -/
  rely : σ → σ → Prop
  /-- What a request of this program may do. -/
  guarantee : σ → Request → σ → Prop
  refl : ∀ s, rely s s
  trans : ∀ {s t u}, rely s t → rely t u → rely s u

variable {σ α β : Type} {T : Terms σ}

def Safe (T : Terms σ) (post : α → σ → Prop) : Program α → σ → Prop
  | .pure a, s => ∀ t, T.rely s t → T.valid t → post a t
  | .ask r next, s => ∀ t, T.rely s t → T.valid t → ∀ x u, T.answers t r x u →
      T.valid u ∧ T.guarantee t r u ∧ Safe T post (next x) u

namespace Safe

/-- What is safe stays safe under what others do. -/
theorem later {post : α → σ → Prop} {p : Program α} {s t : σ} (safe : Safe T post p s)
    (rely : T.rely s t) : Safe T post p t := by
  cases p with
  | pure a => exact fun u next valid => safe u (T.trans rely next) valid
  | ask r next => exact fun u after valid => safe u (T.trans rely after) valid

theorem weaken {post other : α → σ → Prop} {p : Program α} {s : σ} (safe : Safe T post p s)
    (implies : ∀ a t, T.valid t → post a t → other a t) : Safe T other p s := by
  induction p generalizing s with
  | pure a => exact fun t rely valid => implies a t valid (safe t rely valid)
  | ask r next ih =>
    intro t rely valid x u answer
    obtain ⟨kept, done, rest⟩ := safe t rely valid x u answer
    exact ⟨kept, done, ih x rest⟩

theorem bind {mid : α → σ → Prop} {post : β → σ → Prop} {p : Program α} {f : α → Program β}
    {s : σ} (first : Safe T mid p s) (valid : T.valid s)
    (rest : ∀ a t, T.valid t → mid a t → Safe T post (f a) t) : Safe T post (p.bind f) s := by
  induction p generalizing s with
  | pure a => exact rest a s valid (first s (T.refl s) valid)
  | ask r next ih =>
    intro t rely before x u answer
    obtain ⟨kept, done, more⟩ := first t rely before x u answer
    exact ⟨kept, done, ih x more kept⟩

/-! Operations. A failure ends what follows. -/

/-- What is to hold after a success, and what after a failure. -/
def Outcome {ε : Type} (ok : α → σ → Prop) (failed : σ → Prop) : Except ε α → σ → Prop
  | .ok a, s => ok a s
  | .error _, s => failed s

theorem tryThen {o : Operation α} {f : α → Operation β} {mid : α → σ → Prop} {failed : σ → Prop}
    {post : Except Failure β → σ → Prop} {s : σ} (first : Safe T (Outcome mid failed) o s)
    (valid : T.valid s) (rest : ∀ a t, T.valid t → mid a t → Safe T post (f a) t)
    (ends : ∀ e t, T.valid t → failed t → Safe T post (.pure (.error e)) t) :
    Safe T post (o >>= f : Operation β) s := by
  refine Safe.bind first valid fun x t valid reached => ?_
  cases x with
  | ok a => exact rest a t valid reached
  | error e => exact ends e t valid reached

end Safe

namespace Program

def onward (f : α → Program (Except Failure β)) : Except Failure α → Program (Except Failure β)
  | .ok a => f a
  | .error e => .pure (.error e)

def onwardStored (f : α → Program (Except Failure β)) :
    Except StoreError α → Program (Except Failure β)
  | .ok a => f a
  | .error e => .pure (.error (.store e))

end Program

namespace Operation

theorem bind_eq (o : Operation α) (f : α → Operation β) :
    (o >>= f : Operation β) = Program.bind o (Program.onward f) := by
  change Program.bind o _ = _
  congr 1
  funext x
  cases x <;> rfl

theorem store_bind (r : StoreRequest) (f : r.Result → Operation β) :
    (store r >>= f : Operation β) = Program.ask (.store r) (Program.onwardStored f) := by
  change Program.ask _ _ = Program.ask _ _
  congr 1
  funext x
  cases x <;> rfl

/-- The lock is granted, the operation carried out, and the lock let go, however it ended. -/
theorem underLock_eq (name : String) (o : Operation α) :
    underLock name o = Program.ask (.store (.lock name)) (Program.onwardStored fun grant =>
      Program.bind o fun a => .ask (.store (.unlock grant)) fun _ => .pure a) := by
  change Program.ask _ _ = Program.ask _ _
  congr 1
  funext x
  cases x with
  | error e => rfl
  | ok grant =>
    change Program.bind (Program.bind o _) _ = _
    rw [Program.bind_assoc]
    rfl

theorem readClaims_bind {γ : Type} (l : KeyLayout) (kind : PoolKind) (pool : String)
    (decode : KeyLayout → KeyValue → Except Failure α) (f : List α → Operation γ) :
    (readClaims l kind pool decode >>= f : Operation γ) =
      Program.ask (.store (.range (l.claimStart kind pool))) (Program.onwardStored fun found =>
        f (decodeClaims (decode l) found.entries)) := by
  change Program.ask _ _ = Program.ask _ _
  congr 1
  funext x
  cases x <;> rfl

end Operation

namespace Retry

def onward (r : Retry) (pool : String) (once : Operation (Option α)) (left : Nat) :
    Except Failure (Option α) → Program (Except Failure α)
  | .ok (some a) => .pure (.ok a)
  | .ok none => (r.pause left).bind fun _ => r.attempt pool once left
  | .error e => if e.retriable then (r.pause left).bind fun _ => r.attempt pool once left
      else .pure (.error e)

theorem attempt_succ (r : Retry) (pool : String) (once : Operation (Option α)) (left : Nat) :
    r.attempt pool once (left + 1) = Program.bind once (r.onward pool once left) := by
  change Program.bind (Program.bind once _) _ = _
  rw [Program.bind_assoc]
  congr 1
  funext x
  cases x with
  | ok a =>
    cases a with
    | none =>
      change Program.bind (Program.bind (r.pause left) _) _ = Program.bind (r.pause left) _
      rw [Program.bind_assoc]
      rfl
    | some a => rfl
  | error e =>
    change (if e.retriable then _ else _ : Operation α) = (if e.retriable then _ else _)
    split
    · change Program.bind (Program.bind (r.pause left) _) _ = Program.bind (r.pause left) _
      rw [Program.bind_assoc]
      rfl
    · rfl

end Retry

/-- What others leave as it is. -/
def Terms.Stable (T : Terms σ) (P : σ → Prop) : Prop := ∀ {s t}, T.rely s t → P s → P t

namespace Safe

/-- A request to the store and what follows; if it fails, so does the operation. -/
theorem stored {r : StoreRequest} {f : r.Result → Program (Except Failure β)} {mid : r.Result → σ → Prop}
    {ok : β → σ → Prop} {failed : σ → Prop} {s : σ} (stays : T.Stable failed)
    (asks : ∀ {t x u}, T.rely s t → T.valid t → T.answers t (.store r) x u →
      T.valid u ∧ T.guarantee t (.store r) u ∧ Outcome mid failed x u)
    (rest : ∀ {x u}, T.valid u → mid x u → Safe T (Outcome ok failed) (f x) u) :
    Safe T (Outcome ok failed) (.ask (.store r) (Program.onwardStored f)) s := by
  intro t rely valid x u answer
  obtain ⟨valid, done, reached⟩ := asks rely valid answer
  refine ⟨valid, done, ?_⟩
  cases x with
  | error e => exact fun v rely _ => stays rely reached
  | ok x => exact rest valid reached

/-- A pass through a list, with what is known at each of its elements. -/
theorem foldlM {f : β → α → Operation β} {list : List α} {known : σ → Prop} (stays : T.Stable known)
    (each : ∀ a ∈ list, ∀ b s, T.valid s → known s → Safe T (fun _ => known) (f b a) s) {b : β} {s : σ}
    (valid : T.valid s) (start : known s) : Safe T (fun _ => known) (list.foldlM f b : Operation β) s := by
  induction list generalizing b s with
  | nil => exact fun t rely _ => stays rely start
  | cons a rest ih =>
    rw [List.foldlM_cons, Operation.bind_eq]
    refine Safe.bind (each a List.mem_cons_self b s valid start) valid fun x t valid reached => ?_
    cases x with
    | error e => exact fun u rely _ => stays rely reached
    | ok c => exact ih (fun d mem => each d (List.mem_cons_of_mem a mem)) valid reached

/-- What runs under a lock that is always granted in the end. -/
theorem underLock {name : String} {o : Operation α} (idle : σ → Prop) (within : Grant → σ → Prop)
    (mid : Grant → Except Failure α → σ → Prop) (post : Except Failure α → σ → Prop)
    (idle_stays : ∀ {s t}, T.rely s t → idle s → idle t)
    (mid_stays : ∀ {g a s t}, T.rely s t → T.valid t → mid g a s → mid g a t)
    (post_stays : ∀ {a s t}, T.rely s t → T.valid t → post a s → post a t)
    (enters : ∀ {s x t}, T.valid s → idle s → T.answers s (.store (.lock name)) x t →
      T.valid t ∧ T.guarantee s (.store (.lock name)) t ∧ ∃ g, x = .ok g ∧ within g t)
    (inside : ∀ {g s}, T.valid s → within g s → Safe T (mid g) o s)
    (leaves : ∀ {g a s x t}, T.valid s → mid g a s → T.answers s (.store (.unlock g)) x t →
      T.valid t ∧ T.guarantee s (.store (.unlock g)) t ∧ post a t) {s : σ} (start : idle s) :
    Safe T post (Operation.underLock name o) s := by
  rw [Operation.underLock_eq]
  intro t rely valid x u answer
  obtain ⟨valid, done, g, rfl, entered⟩ := enters valid (idle_stays rely start) answer
  refine ⟨valid, done, Safe.bind (inside valid entered) valid fun a v _ reached => ?_⟩
  intro w rely valid y z answer
  obtain ⟨valid, done, left⟩ := leaves valid (mid_stays rely valid reached) answer
  exact ⟨valid, done, fun _ rely valid => post_stays rely valid left⟩

/-- A number of attempts, of which each leaves things as they were unless it succeeds. -/
theorem attempt {r : Retry} {pool : String} {once : Operation (Option α)} (idle : σ → Prop)
    (success : α → σ → Prop) (stays : ∀ {s t}, T.rely s t → idle s → idle t)
    (keeps : ∀ {a s t}, T.rely s t → T.valid t → success a s → success a t)
    (sleeps : ∀ {s t ms x}, T.valid s → idle s → T.answers s (.sleep ms) x t →
      T.valid t ∧ T.guarantee s (.sleep ms) t ∧ idle t)
    (tries : ∀ s, T.valid s → idle s →
      Safe T (Outcome (fun a t => (∀ b ∈ a, success b t) ∧ (a = none → idle t)) idle) once s)
    {left : Nat} {s : σ} (valid : T.valid s) (start : idle s) :
    Safe T (Outcome success idle) (r.attempt pool once left) s := by
  induction left generalizing s with
  | zero => exact fun t rely _ => stays rely start
  | succ left ih =>
    have paused {t : σ} (valid : T.valid t) (start : idle t) : Safe T (Outcome success idle)
        ((r.pause left).bind fun _ => r.attempt pool once left) t := by
      unfold Retry.pause
      split
      · intro u rely valid x v answer
        obtain ⟨valid, done, start⟩ := sleeps valid (stays rely start) answer
        exact ⟨valid, done, ih valid start⟩
      · exact ih valid start
    rw [Retry.attempt_succ]
    refine Safe.bind (tries s valid start) valid fun x t valid reached => ?_
    cases x with
    | ok a =>
      cases a with
      | none => exact paused valid (reached.2 rfl)
      | some a => exact fun u rely valid => keeps rely valid (reached.1 a rfl)
    | error e =>
      change Safe T _ (if e.retriable then _ else _) t
      split
      · exact paused valid reached
      · exact fun u rely _ => stays rely reached

end Safe

end NetPool
