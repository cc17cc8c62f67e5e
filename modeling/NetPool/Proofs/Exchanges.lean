import NetPool.Proofs.Interference
import NetPool.Proofs.Running

/-! A program on its own and what it has been answered. Each of its requests comes after some exchanges;
what is shown of all requests may speak of those that came before. -/

namespace NetPool

/-- A request and what it was answered. -/
structure Exchange where
  request : Request
  answer : request.Answer

namespace Program

variable {α : Type} {q : Request}

/-- After these exchanges the program makes this request. -/
inductive Reaches : Program α → List Exchange → Request → Prop
  | here {r : Request} {next : r.Answer → Program α} : Reaches (.ask r next) [] r
  | later {r q : Request} {next : r.Answer → Program α} {h : List Exchange} (x : r.Answer)
      (rest : Reaches (next x) h q) : Reaches (.ask r next) (⟨r, x⟩ :: h) q

theorem Asks.reaches {allowed : (r : Request) → r.Answer → Prop} {p : Program α}
    (asks : p.Asks allowed q) :
    ∃ h, p.Reaches h q ∧ ∀ x ∈ h, allowed x.request x.answer := by
  induction asks with
  | here => exact ⟨[], .here, nofun⟩
  | later x fine _ ih =>
    obtain ⟨h, rest, others⟩ := ih
    exact ⟨_, .later x rest, List.forall_mem_cons.2 ⟨fine, others⟩⟩

end Program

/-- The terms of a program that is on its own: some answers are allowed, and each request is of a kind that
may depend on the exchanges before it. -/
def alone (allowed : (r : Request) → r.Answer → Prop) (keeps : List Exchange → Request → Prop) :
    Terms (List Exchange) where
  answers h r x u := allowed r x ∧ u = h ++ [⟨r, x⟩]
  valid _ := True
  rely h u := u = h
  guarantee h r _ := keeps h r
  refl _ := rfl
  trans first second := second.trans first

/-- Each request of an operation is of a kind, and so is its result. -/
abbrev Makes {α : Type} (allowed : (r : Request) → r.Answer → Prop)
    (keeps : List Exchange → Request → Prop) (ok : α → List Exchange → Prop) (o : Operation α)
    (h : List Exchange) : Prop :=
  Safe (alone allowed keeps) (Safe.Outcome ok fun _ => True) o h

namespace Makes

variable {allowed : (r : Request) → r.Answer → Prop} {keeps : List Exchange → Request → Prop}
  {α β : Type} {ok : α → List Exchange → Prop} {good : β → List Exchange → Prop} {h g : List Exchange}
  {q : Request}

theorem keeps_of_reaches {post : α → List Exchange → Prop} {p : Program α}
    (safe : Safe (alone allowed keeps) post p h) (reaches : p.Reaches g q)
    (fine : ∀ x ∈ g, allowed x.request x.answer) (possible : ∃ x, allowed q x) : keeps (h ++ g) q := by
  induction reaches generalizing h with
  | here =>
    obtain ⟨x, fine⟩ := possible
    rw [List.append_nil]
    exact (safe h rfl trivial x _ ⟨fine, rfl⟩).2.1
  | later x _ ih =>
    obtain ⟨first, others⟩ := List.forall_mem_cons.1 fine
    rw [List.append_cons]
    exact ih (safe h rfl trivial x _ ⟨first, rfl⟩).2.2 others possible

theorem keeps_of_asks {post : α → List Exchange → Prop} {p : Program α}
    (safe : Safe (alone allowed keeps) post p []) (asks : p.Asks allowed q)
    (possible : ∃ x, allowed q x) : ∃ h, keeps h q := by
  obtain ⟨h, reaches, fine⟩ := asks.reaches
  exact ⟨_, keeps_of_reaches safe reaches fine possible⟩

theorem result {a : α} (good : ok a h) : Makes allowed keeps ok (.pure (.ok a) : Program _) h := by
  rintro _ rfl _
  exact good

theorem failure {e : Failure} : Makes allowed keeps ok (.pure (.error e) : Program _) h :=
  fun _ _ _ => trivial

theorem ask {r : Request} {next : r.Answer → Operation α} (kept : keeps h r)
    (rest : ∀ x, allowed r x → Makes allowed keeps ok (next x) (h ++ [⟨r, x⟩])) :
    Makes allowed keeps ok (.ask r next : Program _) h := by
  rintro _ rfl _ x _ ⟨fine, rfl⟩
  exact ⟨trivial, kept, rest x fine⟩

theorem stored {r : StoreRequest} {f : r.Result → Operation α} (kept : keeps h (.store r))
    (rest : ∀ x, allowed (.store r) (.ok x) →
      Makes allowed keeps ok (f x) (h ++ [⟨.store r, .ok x⟩])) :
    Makes allowed keeps ok (.ask (.store r) (Program.onwardStored f) : Program _) h := by
  apply ask kept
  intro x fine
  cases x with
  | error => exact failure
  | ok x => exact rest x fine

theorem onward {o : Operation α} {f : α → Operation β} (first : Makes allowed keeps ok o h)
    (rest : ∀ a g, ok a g → Makes allowed keeps good (f a) g) :
    Makes allowed keeps good (Program.bind o (Program.onward f) : Program _) h := by
  apply Safe.bind first trivial
  intro x g _ reached
  cases x with
  | error => exact failure
  | ok a => exact rest a g reached

theorem underLock {name : String} {o : Operation α} (locks : keeps h (.store (.lock name)))
    (unlocks : ∀ h grant, keeps h (.store (.unlock grant)))
    (makes : ∀ h, Makes allowed keeps (fun _ _ => True) o h) :
    Makes allowed keeps (fun _ _ => True) (Operation.underLock name o) h := by
  rw [Operation.underLock_eq]
  apply stored locks
  intro grant _
  apply Safe.bind (makes _) trivial
  intro x g _ _
  apply ask (unlocks g grant)
  intro _ _
  cases x with
  | error => exact failure
  | ok a => exact result trivial

theorem run {r : Retry} {pool : String} {once : Operation (Option α)}
    (sleeps : ∀ h ms, keeps h (.sleep ms)) (tries : ∀ h, Makes allowed keeps (fun _ _ => True) once h) :
    Makes allowed keeps (fun _ _ => True) (r.run pool once) h := by
  refine Safe.attempt (fun _ => True) (fun _ _ => True) (fun _ _ => trivial) (fun _ _ _ => trivial)
    (fun _ _ _ => ⟨trivial, sleeps _ _, trivial⟩) (fun g _ _ => ?_) trivial trivial
  apply (tries g).weaken
  intro x _ _ _
  cases x with
  | error => trivial
  | ok => exact ⟨fun _ _ => trivial, fun _ => trivial⟩

end Makes

end NetPool
