import NetPool.Program
import NetPool.Store.Serve

/-! What a program can come to, whatever it is answered, and what it comes to where each answer is
determined. -/

namespace NetPool

variable {σ α β : Type}

namespace Request

def creates : Request → Option String
  | .store (.create key _) => some key
  | _ => none

def puts : Request → Option String
  | .store (.put key _) => some key
  | _ => none

theorem creates_eq_some {q : Request} {key : String} :
    q.creates = some key ↔ ∃ value, q = .store (.create key value) := by
  constructor
  · intro h
    unfold creates at h
    split at h
    · cases h
      exact ⟨_, rfl⟩
    · cases h
  · rintro ⟨value, rfl⟩
    rfl

theorem puts_eq_some {q : Request} {key : String} :
    q.puts = some key ↔ ∃ value, q = .store (.put key value) := by
  constructor
  · intro h
    unfold puts at h
    split at h
    · cases h
      exact ⟨_, rfl⟩
    · cases h
  · rintro ⟨value, rfl⟩
    rfl

/-- The key that a request creates or puts. -/
def places (r : Request) : Option String := r.creates <|> r.puts

/-- Any answer is allowed. -/
def anyhow (r : Request) (_ : r.Answer) : Prop := True

end Request

namespace Program

/-- Some answers lead the program to this result. -/
inductive Yields : Program α → α → Prop
  | pure (a : α) : Yields (.pure a) a
  | ask {r : Request} {next : r.Answer → Program α} {a : α} (x : r.Answer) (rest : Yields (next x) a) :
      Yields (.ask r next) a

theorem yields_pure {a b : α} (yields : (pure a : Program α).Yields b) : b = a := by
  cases yields
  rfl

theorem yields_ask {r : Request} {next : r.Answer → Program α} {a : α}
    (yields : (ask r next).Yields a) : ∃ x, (next x).Yields a := by
  cases yields with
  | ask x rest => exact ⟨x, rest⟩

theorem yields_bind {p : Program α} {f : α → Program β} {b : β} (yields : (p.bind f).Yields b) :
    ∃ a, p.Yields a ∧ (f a).Yields b := by
  induction p with
  | pure a => exact ⟨a, .pure a, yields⟩
  | ask r next ih =>
    obtain ⟨x, rest⟩ := yields_ask yields
    obtain ⟨a, first, second⟩ := ih x rest
    exact ⟨a, .ask x first, second⟩

theorem Yields.bind {p : Program α} {f : α → Program β} {a : α} {b : β} (first : p.Yields a)
    (rest : (f a).Yields b) : (p.bind f).Yields b := by
  induction first with
  | pure a => exact rest
  | ask x _ ih => exact .ask x (ih rest)

/-- Answers that are allowed lead the program to this request. -/
inductive Asks (allowed : (r : Request) → r.Answer → Prop) : Program α → Request → Prop
  | here {r : Request} {next : r.Answer → Program α} : Asks allowed (.ask r next) r
  | later {r q : Request} {next : r.Answer → Program α} (x : r.Answer) (fine : allowed r x)
      (rest : Asks allowed (next x) q) : Asks allowed (.ask r next) q

/-- What a program comes to, and the state then, where a state determines each answer; `none` if a
request is never answered. -/
def run (reply : σ → (r : Request) → Option (r.Answer × σ)) : Program α → σ → Option (α × σ)
  | .pure a, s => some (a, s)
  | .ask r next, s => (reply s r).bind fun x => (next x.1).run reply x.2

variable {reply : σ → (r : Request) → Option (r.Answer × σ)}

theorem run_bind (p : Program α) (f : α → Program β) (s : σ) :
    (p.bind f).run reply s = (p.run reply s).bind fun x => (f x.1).run reply x.2 := by
  induction p generalizing s with
  | pure a => rfl
  | ask r next ih =>
    simp only [bind, run]
    cases reply s r with
    | none => rfl
    | some x => exact ih x.1 x.2

theorem run_bind_of {p : Program α} {s t : σ} {a : α} (first : p.run reply s = some (a, t))
    (f : α → Program β) : (p.bind f).run reply s = (f a).run reply t := by
  rw [run_bind, first]
  rfl

theorem run_yields {p : Program α} {s t : σ} {a : α} (done : p.run reply s = some (a, t)) : p.Yields a := by
  induction p generalizing s with
  | pure b =>
    cases done
    exact .pure a
  | ask r next ih =>
    obtain ⟨x, _, rest⟩ := Option.bind_eq_some_iff.1 done
    exact .ask x.1 (ih x.1 rest)

/-- Where what is answered from one state is answered from another in the same way, and both stay related,
a run goes from both in the same way. -/
theorem run_along {τ : Type} {other : τ → (r : Request) → Option (r.Answer × τ)} (R : σ → τ → Prop)
    (along : ∀ {s t r x s'}, R s t → reply s r = some (x, s') →
      ∃ t', other t r = some (x, t') ∧ R s' t') {p : Program α} {s s' : σ} {t : τ} {a : α}
    (start : R s t) (done : p.run reply s = some (a, s')) :
    ∃ t', p.run other t = some (a, t') ∧ R s' t' := by
  induction p generalizing s t with
  | pure b =>
    cases done
    exact ⟨t, rfl, start⟩
  | ask r next ih =>
    obtain ⟨⟨x, u⟩, answered, rest⟩ := Option.bind_eq_some_iff.1 done
    obtain ⟨v, answered, related⟩ := along start answered
    obtain ⟨t', rest, related⟩ := ih x related rest
    exact ⟨t', Option.bind_eq_some_iff.2 ⟨(x, v), answered, rest⟩, related⟩

/-- Where the same requests are answered in the same way, and perhaps others too, a run is the same. -/
theorem run_mono {more : σ → (r : Request) → Option (r.Answer × σ)}
    (also : ∀ {s r x}, reply s r = some x → more s r = some x) {p : Program α} {s t : σ} {a : α}
    (done : p.run reply s = some (a, t)) : p.run more s = some (a, t) := by
  obtain ⟨_, same, rfl⟩ := run_along Eq
    (fun {s _ r x s'} (start : s = _) answered => ⟨s', start ▸ also answered, rfl⟩) rfl done
  exact same

/-- With answers of this kind the program comes to this result and this state. -/
inductive Ends (answers : σ → (r : Request) → r.Answer → σ → Prop) : Program α → σ → α → σ → Prop
  | pure (a : α) (s : σ) : Ends answers (.pure a) s a s
  | ask {r : Request} {next : r.Answer → Program α} {s t u : σ} {x : r.Answer} {a : α}
      (answer : answers s r x t) (rest : Ends answers (next x) t a u) : Ends answers (.ask r next) s a u

theorem ends_pure {answers : σ → (r : Request) → r.Answer → σ → Prop} {s t : σ} {a b : α}
    (ends : (pure b : Program α).Ends answers s a t) : a = b ∧ t = s := by
  cases ends
  exact ⟨rfl, rfl⟩

theorem ends_ask {answers : σ → (r : Request) → r.Answer → σ → Prop} {r : Request}
    {next : r.Answer → Program α} {s u : σ} {a : α} (ends : (ask r next).Ends answers s a u) :
    ∃ x t, answers s r x t ∧ (next x).Ends answers t a u := by
  cases ends with
  | ask answer rest => exact ⟨_, _, answer, rest⟩

theorem ends_bind {answers : σ → (r : Request) → r.Answer → σ → Prop} {p : Program α}
    {f : α → Program β} {s u : σ} {b : β} (ends : (p.bind f).Ends answers s b u) :
    ∃ a t, p.Ends answers s a t ∧ (f a).Ends answers t b u := by
  induction p generalizing s with
  | pure a => exact ⟨a, s, .pure a s, ends⟩
  | ask r next ih =>
    obtain ⟨x, t, answer, rest⟩ := ends_ask ends
    obtain ⟨a, v, first, second⟩ := ih x rest
    exact ⟨a, v, .ask answer first, second⟩

theorem run_ends {answers : σ → (r : Request) → r.Answer → σ → Prop}
    (fits : ∀ {s r x t}, reply s r = some (x, t) → answers s r x t) {p : Program α} {s t : σ} {a : α}
    (done : p.run reply s = some (a, t)) : p.Ends answers s a t := by
  induction p generalizing s with
  | pure b =>
    cases done
    exact .pure a t
  | ask r next ih =>
    obtain ⟨x, answered, rest⟩ := Option.bind_eq_some_iff.1 done
    exact .ask (fits answered) (ih x.1 rest)

/-- What the requests of a run are for, of those that are for something of a kind. -/
def asked (of : Request → Option β) (reply : σ → (r : Request) → Option (r.Answer × σ)) :
    Program α → σ → List β
  | .pure _, _ => []
  | .ask r next, s => (of r).toList ++ ((reply s r).map fun x => (next x.1).asked of reply x.2).getD []

theorem asks_of_mem_asked {of : Request → Option β} {p : Program α} {s : σ} {b : β}
    (mem : b ∈ p.asked of reply s) : ∃ q, of q = some b ∧ p.Asks Request.anyhow q := by
  induction p generalizing s with
  | pure a => cases mem
  | ask r next ih =>
    rcases List.mem_append.1 mem with here | later
    · exact ⟨r, Option.mem_toList.1 here, .here⟩
    · cases answered : reply s r with
      | none =>
        rw [answered] at later
        cases later
      | some x =>
        rw [answered] at later
        obtain ⟨q, places, asks⟩ := ih x.1 later
        exact ⟨q, places, .later x.1 trivial asks⟩

/-- Of the requests of a run no more than so many are for something of a kind. -/
def AsksAtMost (of : Request → Option β) (reply : σ → (r : Request) → Option (r.Answer × σ)) (n : Nat)
    (p : Program α) : Prop :=
  ∀ s, (p.asked of reply s).length ≤ n

section

variable {of : Request → Option β} {m n : Nat}

theorem AsksAtMost.pure (a : α) : AsksAtMost of reply n (.pure a) := fun _ => Nat.zero_le n

theorem AsksAtMost.ask {r : Request} {next : r.Answer → Program α}
    (rest : ∀ x, AsksAtMost of reply n (next x)) :
    AsksAtMost of reply ((of r).toList.length + n) (.ask r next) := by
  intro s
  rw [asked, List.length_append]
  refine Nat.add_le_add_left ?_ _
  cases reply s r with
  | none => exact Nat.zero_le n
  | some x => exact rest x.1 x.2

/-- A request for something else does not count. -/
theorem AsksAtMost.pass {r : Request} {next : r.Answer → Program α} (other : of r = none)
    (rest : ∀ x, AsksAtMost of reply n (next x)) : AsksAtMost of reply n (.ask r next) := by
  intro s
  have most := AsksAtMost.ask rest s
  rw [other] at most
  exact Nat.le_trans most (Nat.le_of_eq (Nat.zero_add n))

theorem AsksAtMost.bind {p : Program α} {γ : Type} {f : α → Program γ} (first : AsksAtMost of reply m p)
    (rest : ∀ a, AsksAtMost of reply n (f a)) : AsksAtMost of reply (m + n) (p.bind f) := by
  intro s
  -- On the program: what has been asked so far counts against `m`.
  have both (q : Program α) (s : σ) : ((q.bind f).asked of reply s).length ≤
      (q.asked of reply s).length + n := by
    induction q generalizing s with
    | pure a => exact Nat.le_trans (rest a s) (Nat.le_add_left n _)
    | ask r next ih =>
      rw [Program.bind, asked, asked, List.length_append, List.length_append, Nat.add_assoc]
      refine Nat.add_le_add_left ?_ _
      cases reply s r with
      | none => exact Nat.zero_le _
      | some x => exact ih x.1 x.2
  exact Nat.le_trans (both p s) (Nat.add_le_add_right (first s) n)

end

end Program

/-- A store that answers at once, or not at all. -/
def Store.reply (s : Store) : (r : Request) → Option (r.Answer × Store)
  | .store r => (s.serve r).1.map fun x => (x, (s.serve r).2)
  | _ => none

/-- A store that answers at once, beside a clock that stands; of a choice the last one is picked. -/
def Store.attend (s : Store) : (r : Request) → Option (r.Answer × Store)
  | .now => some (0, s)
  | .sleep _ => some ((), s)
  | .pick bound => some (Fin.last bound, s)
  | r => s.reply r

/-- Answers of a store that nobody else uses, at one time; of a choice any is picked. -/
def Store.Attends (now : UInt64) (s : Store) : (r : Request) → r.Answer → Store → Prop
  | .store r, x, t => s.serve r = (some x, t)
  | .now, x, t => x = now ∧ t = s
  | .sleep _, _, t => t = s
  | .pick _, _, t => t = s
  | _, _, _ => False

section

variable {now : UInt64} {s t u : Store} {a : α}

theorem Store.ends_store {r : StoreRequest} {next : Except StoreError r.Result → Program α}
    {x : Except StoreError r.Result} (served : s.serve r = (some x, t))
    (ends : (Program.ask (.store r) next).Ends (Attends now) s a u) :
    (next x).Ends (Attends now) t a u := by
  obtain ⟨y, v, answer, rest⟩ := Program.ends_ask ends
  cases served.symm.trans answer
  exact rest

theorem Store.ends_now {next : UInt64 → Program α}
    (ends : (Program.ask .now next).Ends (Attends now) s a u) : (next now).Ends (Attends now) s a u := by
  obtain ⟨_, _, ⟨rfl, rfl⟩, rest⟩ := Program.ends_ask ends
  exact rest

theorem Store.ends_sleep {ms : Nat} {next : Unit → Program α}
    (ends : (Program.ask (.sleep ms) next).Ends (Attends now) s a u) :
    (next ()).Ends (Attends now) s a u := by
  obtain ⟨_, _, rfl, rest⟩ := Program.ends_ask ends
  exact rest

theorem Store.ends_pick {bound : Nat} {next : Fin (bound + 1) → Program α}
    (ends : (Program.ask (.pick bound) next).Ends (Attends now) s a u) :
    ∃ i, (next i).Ends (Attends now) s a u := by
  obtain ⟨i, _, rfl, rest⟩ := Program.ends_ask ends
  exact ⟨i, rest⟩

end

theorem Store.attend_attends {s t : Store} {r : Request} {x : r.Answer}
    (answered : s.attend r = some (x, t)) : s.Attends 0 r x t := by
  cases r with
  | store r =>
    obtain ⟨y, served, same⟩ := Option.map_eq_some_iff.1 answered
    cases same
    exact Prod.ext served rfl
  | now =>
    cases answered
    exact ⟨rfl, rfl⟩
  | sleep | pick =>
    cases answered
    exact rfl
  | cache | chore | instant | isLive | apply => cases answered

end NetPool
