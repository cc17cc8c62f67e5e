import NetPool.Proofs.Store.Following

/-! Those who follow a scope while the store goes on: a consumer that calls again and again with its
last cursor, and a feed. Both only ever tell what the store held, and never go back. -/

namespace NetPool

/-- A consumer, with the call that it waits for. -/
structure Consumer where
  world : Lived
  cursor : Option Nat
  view : View
  call : Option (Program (Except StoreError Observation))

namespace Consumer

def start (limit : Nat) : Consumer where
  world := .start (.empty limit)
  cursor := none
  view := fun _ => none
  call := none

def take (c : Consumer) : Except StoreError Observation → Consumer
  | .ok o => { c with cursor := some o.cursor, view := o.update.onto c.view, call := none }
  | .error _ => { c with call := none }

inductive Step (scope : Scope) : Consumer → Consumer → Prop
  | moved (c : Consumer) {s : Store} (m : Store.Moves c.world.store s) :
      Step scope c { c with world := c.world.moved s }
  | called (c : Consumer) (idle : c.call = none) :
      Step scope c { c with call := some (watchFrom scope c.cursor) }
  | answered (c : Consumer) {r next x l} (waits : c.call = some (.ask r next))
      (answer : c.world.Answers r x l) : Step scope c { c with world := l, call := some (next x) }
  | ended (c : Consumer) {x} (finished : c.call = some (.pure x)) : Step scope c (c.take x)

inductive Reached (scope : Scope) (limit : Nat) : Consumer → Prop
  | start : Reached scope limit (.start limit)
  | step {c d : Consumer} (reached : Reached scope limit c) (step : Step scope c d) :
      Reached scope limit d

structure Right (scope : Scope) (c : Consumer) : Prop where
  world : c.world.Right
  held : ∀ n ∈ c.cursor, c.world.Held scope n c.view
  call : ∀ p ∈ c.call, Safe following
    (fun x l => ∀ o, x = .ok o → o.Leads l scope c.cursor c.view) p c.world

theorem start_right (scope : Scope) (limit : Nat) : (start limit).Right scope where
  world := Lived.start_right limit
  held := fun _ mem => nomatch mem
  call := fun _ mem => nomatch mem

theorem Right.ended {scope : Scope} {c : Consumer} (right : c.Right scope) {o : Observation}
    (finished : c.call = some (.pure (.ok o))) : o.Leads c.world scope c.cursor c.view :=
  right.call _ finished c.world (following.refl _) right.world o rfl

theorem Right.step {scope : Scope} {c d : Consumer} (right : c.Right scope) (step : Step scope c d) :
    d.Right scope := by
  cases step with
  | moved m =>
    obtain ⟨world, later⟩ := right.world.moved m
    exact ⟨world, fun n mem => (right.held n mem).later later,
      fun p mem => (right.call p mem).later later⟩
  | called =>
    refine ⟨right.world, right.held, fun p mem => ?_⟩
    cases mem
    exact watchFrom_safe right.held
  | answered waits answer =>
    obtain ⟨world, later⟩ := answer.keeps right.world
    have rest := (right.call _ waits c.world (following.refl _) right.world _ _ answer).2.2
    refine ⟨world, fun n mem => (right.held n mem).later later, fun p mem => ?_⟩
    cases mem
    exact rest
  | @ended x finished =>
    cases x with
    | error e => exact ⟨right.world, right.held, fun _ mem => nomatch mem⟩
    | ok o =>
      refine ⟨right.world, fun n mem => ?_, fun _ mem => nomatch mem⟩
      cases mem
      exact (right.ended finished).2

theorem Reached.right {scope : Scope} {limit : Nat} {c : Consumer} (reached : Reached scope limit c) :
    c.Right scope := by
  induction reached with
  | start => exact start_right scope limit
  | step _ step ih => exact ih.step step

/-- Only a call that succeeds changes what a consumer knows, and it leads on. -/
theorem Right.change {scope : Scope} {c d : Consumer} (right : c.Right scope) (step : Step scope c d) :
    (d.cursor = c.cursor ∧ d.view = c.view) ∨
      ∃ o, c.call = some (.pure (.ok o)) ∧ d = c.take (.ok o) ∧ ∀ n ∈ c.cursor, n ≤ o.cursor := by
  cases step with
  | moved | called | answered => exact .inl ⟨rfl, rfl⟩
  | @ended x finished =>
    cases x with
    | error e => exact .inl ⟨rfl, rfl⟩
    | ok o => exact .inr ⟨o, finished, rfl, (right.ended finished).1⟩

end Consumer

/-- A feed, with the program that it runs and what it has sent so far. -/
structure Feeding where
  world : Lived
  state : ScopeFeed.State
  running : Option (Program ScopeFeed.State)
  sent : List Observation

namespace Feeding

def start (limit : Nat) : Feeding where
  world := .start (.empty limit)
  state := {}
  running := none
  sent := []

/-- The view of one who applies the updates in turn. -/
def told (sent : List Observation) : View := sent.foldl (fun v o => o.update.onto v) fun _ => none

inductive Step (f : ScopeFeed) : Feeding → Feeding → Prop
  | moved (c : Feeding) {s : Store} (m : Store.Moves c.world.store s) :
      Step f c { c with world := c.world.moved s }
  | begun (c : Feeding) {stopped alarm p} (idle : c.running = none)
      (waits : f.activity c.state = .wait stopped alarm (.program p)) :
      Step f c { c with running := some p }
  | answered (c : Feeding) {r next x l} (waits : c.running = some (.ask r next))
      (answer : c.world.Answers r x l) : Step f c { c with world := l, running := some (next x) }
  | ended (c : Feeding) {s} (finished : c.running = some (.pure s)) :
      Step f c { c with state := s, running := none }
  /-- The request to stop comes first. -/
  | stopped (c : Feeding) {stopped alarm source}
      (waits : f.activity c.state = .wait stopped alarm source) :
      Step f c { c with state := stopped, running := none }
  /-- The instant comes first. -/
  | alarmed (c : Feeding) {stopped instant s source}
      (waits : f.activity c.state = .wait stopped (some (instant, s)) source) :
      Step f c { c with state := s, running := none }
  | taken (c : Feeding) {stopped alarm mailbox o next}
      (waits : f.activity c.state = .wait stopped alarm (.send mailbox o next)) :
      Step f c { c with state := next true, sent := c.sent ++ [o] }
  /-- Nobody takes updates any more. -/
  | refused (c : Feeding) {stopped alarm mailbox o next}
      (waits : f.activity c.state = .wait stopped alarm (.send mailbox o next)) :
      Step f c { c with state := next false }

inductive Reached (f : ScopeFeed) (limit : Nat) : Feeding → Prop
  | start : Reached f limit (.start limit)
  | step {c d : Feeding} (reached : Reached f limit c) (step : Step f c d) : Reached f limit d

/-- A state to go on in from a cursor, once a view of that cursor has been told. -/
def Fits (l : Lived) (scope : Scope) (cursor : Option Nat) (v : View) (s : ScopeFeed.State) : Prop :=
  match s.phase with
  | .sending o => s.cursor = some o.cursor ∧ o.Leads l scope cursor v
  | .reading | .pausing _ => s.cursor = cursor
  | .stopped => True

theorem Fits.later {l m : Lived} {scope : Scope} {cursor : Option Nat} {v : View}
    {s : ScopeFeed.State} (fits : Fits l scope cursor v s) (later : l.Later m) :
    Fits m scope cursor v s := by
  unfold Fits at *
  cases phase : s.phase with
  | sending o => rw [phase] at fits; exact ⟨fits.1, fits.2.later later⟩
  | reading | pausing | stopped => rw [phase] at fits; exact fits

theorem read_safe (f : ScopeFeed) {l : Lived} (right : l.Right) {s : ScopeFeed.State} {v : View}
    (held : ∀ n ∈ s.cursor, l.Held f.scope n v) :
    Safe following (fun t m => Fits m f.scope s.cursor v t ∧ t.phase ≠ .stopped) (f.read s) l := by
  apply Safe.bind (watchFrom_safe held) right
  intro x m valid leads
  cases x with
  | ok o => exact fun n later _ => ⟨⟨rfl, (leads o rfl).later later⟩, nofun⟩
  | error e =>
    rintro n later kept x after (answer : n.Answers _ x after)
    exact ⟨(answer.keeps kept).1, trivial, fun _ _ _ => ⟨rfl, nofun⟩⟩

/-- The cursor behind what was sent. -/
def reachedBy (sent : List Observation) : Option Nat := sent.getLast?.map (·.cursor)

structure Right (scope : Scope) (c : Feeding) : Prop where
  world : c.world.Right
  /-- After each update sent, the view is the scope at its cursor. -/
  held : ∀ before o, before ++ [o] <+: c.sent → c.world.Held scope o.cursor (told (before ++ [o]))
  forward : c.sent.Pairwise (·.cursor ≤ ·.cursor)
  state : Fits c.world scope (reachedBy c.sent) (told c.sent) c.state
  running : ∀ p ∈ c.running, c.state.phase = .reading ∧ Safe following
    (fun s l => Fits l scope (reachedBy c.sent) (told c.sent) s ∧ s.phase ≠ .stopped) p c.world

theorem start_right (scope : Scope) (limit : Nat) : (start limit).Right scope where
  world := Lived.start_right limit
  held := fun before o sub => by simp [start] at sub
  forward := .nil
  state := rfl
  running := fun _ mem => nomatch mem

theorem Right.reached {scope : Scope} {c : Feeding} (right : c.Right scope) :
    ∀ n ∈ reachedBy c.sent, c.world.Held scope n (told c.sent) := by
  intro n mem
  obtain ⟨o, last, rfl⟩ := Option.map_eq_some_iff.1 mem
  obtain ⟨before, sent⟩ := List.getLast?_eq_some_iff.1 last
  rw [sent]
  exact right.held before o (sent ▸ List.prefix_refl _)

theorem told_append (sent : List Observation) (o : Observation) :
    told (sent ++ [o]) = o.update.onto (told sent) := by
  rw [told, List.foldl_append]; rfl

theorem Right.sends {scope : Scope} {c : Feeding} (right : c.Right scope) {o : Observation}
    (leads : o.Leads c.world scope (reachedBy c.sent) (told c.sent)) :
    (∀ before a, before ++ [a] <+: c.sent ++ [o] →
      c.world.Held scope a.cursor (told (before ++ [a]))) ∧
    (c.sent ++ [o]).Pairwise (·.cursor ≤ ·.cursor) := by
  constructor
  · intro before a sub
    rcases List.prefix_concat_iff.1 sub with whole | inner
    · obtain ⟨rfl, last⟩ := List.append_inj' whole rfl
      cases last
      rw [told_append]
      exact leads.2
    · exact right.held before a inner
  · refine List.pairwise_append.2 ⟨right.forward, List.pairwise_singleton _ _, fun a ha b hb => ?_⟩
    cases List.mem_singleton.1 hb
    cases last : c.sent.getLast? with
    | none => rw [List.getLast?_eq_none_iff.1 last] at ha; cases ha
    | some z =>
      have upTo : z.cursor ≤ o.cursor := leads.1 _ (by rw [reachedBy, last]; rfl)
      obtain ⟨before, sent⟩ := List.getLast?_eq_some_iff.1 last
      rw [sent] at ha
      rcases List.mem_append.1 ha with old | same
      · have forward := right.forward
        rw [sent] at forward
        exact Nat.le_trans ((List.pairwise_append.1 forward).2.2 a old z List.mem_cons_self) upTo
      · cases List.mem_singleton.1 same
        exact upTo

theorem activity_stopped {f : ScopeFeed} {s stopped : ScopeFeed.State} {alarm source}
    (waits : f.activity s = .wait stopped alarm source) : stopped = { s with phase := .stopped } := by
  unfold ScopeFeed.activity at waits
  cases phase : s.phase <;> rw [phase] at waits <;> cases waits <;> rfl

theorem activity_program {f : ScopeFeed} {s stopped : ScopeFeed.State} {alarm p}
    (waits : f.activity s = .wait stopped alarm (.program p)) :
    s.phase = .reading ∧ p = f.read s := by
  unfold ScopeFeed.activity at waits
  cases phase : s.phase <;> rw [phase] at waits <;> cases waits
  exact ⟨rfl, rfl⟩

theorem activity_alarm {f : ScopeFeed} {s stopped next : ScopeFeed.State} {instant source}
    (waits : f.activity s = .wait stopped (some (instant, next)) source) :
    s.phase = .pausing instant ∧ next = { s with phase := .reading } := by
  unfold ScopeFeed.activity at waits
  cases phase : s.phase <;> rw [phase] at waits <;> cases waits
  exact ⟨rfl, rfl⟩

theorem activity_send {f : ScopeFeed} {s stopped : ScopeFeed.State} {alarm mailbox o next}
    (waits : f.activity s = .wait stopped alarm (.send mailbox o next)) : s.phase = .sending o ∧
      next true = { s with phase := .reading } ∧ next false = { s with phase := .stopped } := by
  unfold ScopeFeed.activity at waits
  cases phase : s.phase <;> rw [phase] at waits <;> cases waits
  exact ⟨rfl, rfl, rfl⟩

theorem Right.step {f : ScopeFeed} {c d : Feeding} (right : c.Right f.scope) (step : Step f c d) :
    d.Right f.scope := by
  cases step with
  | moved m =>
    obtain ⟨world, later⟩ := right.world.moved m
    exact ⟨world, fun before o sub => (right.held before o sub).later later, right.forward,
      right.state.later later,
      fun p mem => ⟨(right.running p mem).1, (right.running p mem).2.later later⟩⟩
  | begun _ waits =>
    obtain ⟨phase, rfl⟩ := activity_program waits
    have cursor : c.state.cursor = reachedBy c.sent := by
      have fits := right.state
      unfold Fits at fits
      rwa [phase] at fits
    refine ⟨right.world, right.held, right.forward, right.state, fun p mem => ?_⟩
    cases mem
    refine ⟨phase, ?_⟩
    rw [← cursor]
    exact read_safe f right.world (cursor ▸ right.reached)
  | answered waits answer =>
    obtain ⟨world, later⟩ := answer.keeps right.world
    obtain ⟨phase, safe⟩ := right.running _ waits
    have rest := (safe c.world (following.refl _) right.world _ _ answer).2.2
    refine ⟨world, fun before o sub => (right.held before o sub).later later, right.forward,
      right.state.later later, fun p mem => ?_⟩
    cases mem
    exact ⟨phase, rest⟩
  | ended finished =>
    exact ⟨right.world, right.held, right.forward,
      ((right.running _ finished).2 c.world (following.refl _) right.world).1, fun _ mem => nomatch mem⟩
  | stopped waits =>
    cases activity_stopped waits
    exact ⟨right.world, right.held, right.forward, trivial, fun _ mem => nomatch mem⟩
  | alarmed waits =>
    obtain ⟨phase, rfl⟩ := activity_alarm waits
    have fits := right.state
    unfold Fits at fits
    rw [phase] at fits
    exact ⟨right.world, right.held, right.forward, fits, fun _ mem => nomatch mem⟩
  | taken waits =>
    obtain ⟨phase, after, _⟩ := activity_send waits
    have fits := right.state
    unfold Fits at fits
    rw [phase] at fits
    obtain ⟨held, forward⟩ := right.sends fits.2
    refine ⟨right.world, held, forward, ?_, fun p mem => ?_⟩
    · rw [after]
      change c.state.cursor = reachedBy (c.sent ++ _)
      rw [fits.1, reachedBy, List.getLast?_concat]
      rfl
    · have reading := (right.running p mem).1
      rw [phase] at reading
      cases reading
  | refused waits =>
    obtain ⟨phase, _, after⟩ := activity_send waits
    refine ⟨right.world, right.held, right.forward, ?_, fun p mem => ?_⟩
    · rw [after]
      trivial
    · have reading := (right.running p mem).1
      rw [phase] at reading
      cases reading

theorem Reached.right {f : ScopeFeed} {limit : Nat} {c : Feeding} (reached : Reached f limit c) :
    c.Right f.scope := by
  induction reached with
  | start => exact start_right f.scope limit
  | step _ step ih => exact ih.step step

/-- The cursor of a feed moves only with a read that succeeds. -/
theorem Right.change {f : ScopeFeed} {c d : Feeding} (right : c.Right f.scope) (step : Step f c d) :
    d.state.cursor = c.state.cursor ∨
      ∃ o, d.state = ⟨some o.cursor, .sending o⟩ ∧ ∀ n ∈ c.state.cursor, n ≤ o.cursor := by
  cases step with
  | moved | begun | answered => exact .inl rfl
  | stopped waits =>
    cases activity_stopped waits
    exact .inl rfl
  | alarmed waits =>
    obtain ⟨_, rfl⟩ := activity_alarm waits
    exact .inl rfl
  | taken waits =>
    left
    rw [(activity_send waits).2.1]
  | refused waits =>
    left
    rw [(activity_send waits).2.2]
  | @ended s finished =>
    obtain ⟨phase, safe⟩ := right.running _ finished
    obtain ⟨fits, goes⟩ := safe c.world (following.refl _) right.world
    have now := right.state
    unfold Fits at fits now
    rw [phase] at now
    obtain ⟨cursor, next⟩ := s
    cases next with
    | sending o =>
      obtain ⟨rfl, leads⟩ := fits
      exact .inr ⟨o, rfl, now ▸ leads.1⟩
    | reading | pausing => exact .inl (fits.trans now.symm)
    | stopped => exact absurd rfl goes

end Feeding

namespace Lived

theorem Held.exact {l : Lived} (right : l.Right) {scope : Scope} {n : Nat} {v : View}
    (held : l.Held scope n v) : (∃ s ∈ l.seen, s.revision = n) ∧
      ∀ s ∈ l.seen, s.revision = n → v = scope.part s.find? := by
  refine ⟨?_, fun s seen revision => held.eq right seen revision⟩
  obtain ⟨s, seen, revision, _⟩ := held
  exact ⟨s, seen, revision⟩

end Lived

/-- What a consumer knows is what the scope held at the revision of its cursor, whatever the store
went through; only a call that succeeds changes it, and the cursor never goes back. So it is with
the updates that a feed sends. -/
theorem followers_know_scope {limit capacity : Nat} {scope : Scope} {f : ScopeFeed} {c : Consumer}
    {g : Feeding} (followed : Consumer.Reached scope limit c)
    (fed : Feeding.Reached f capacity g) :
    (∀ n, c.cursor = some n → (∃ s ∈ c.world.seen, s.revision = n) ∧
      ∀ s ∈ c.world.seen, s.revision = n → c.view = scope.part s.find?) ∧
    (∀ d, Consumer.Step scope c d → (d.cursor = c.cursor ∧ d.view = c.view) ∨
      ∃ o, c.call = some (.pure (.ok o)) ∧ d = c.take (.ok o) ∧ ∀ n ∈ c.cursor, n ≤ o.cursor) ∧
    (∀ sent o, sent ++ [o] <+: g.sent → (∃ s ∈ g.world.seen, s.revision = o.cursor) ∧
      ∀ s ∈ g.world.seen, s.revision = o.cursor →
        Feeding.told (sent ++ [o]) = f.scope.part s.find?) ∧
    g.sent.Pairwise (·.cursor ≤ ·.cursor) ∧
    (∀ d, Feeding.Step f g d → d.state.cursor = g.state.cursor ∨
      ∃ o, d.state = ⟨some o.cursor, .sending o⟩ ∧ ∀ n ∈ g.state.cursor, n ≤ o.cursor) := by
  have consumer := followed.right
  have feed := fed.right
  refine ⟨fun n cursor => ?_, fun d step => consumer.change step, fun sent o sub => ?_,
    feed.forward, fun d step => feed.change step⟩
  · exact (consumer.held n cursor).exact consumer.world
  · exact (feed.held sent o sub).exact feed.world

/-- A consumer that reads a snapshot and then an event, beside a feed that sends a snapshot. -/
theorem followers_know_two_writes : ∃ c g,
    Consumer.Reached (.under "a") 1 c ∧
      Feeding.Reached ⟨.key "a/1", 0, 500⟩ 1 g ∧
      c.cursor = some 2 ∧ (∃ s ∈ c.world.seen, s.revision = 2) ∧
      (c.view "a/2").isSome ∧ g.sent.length = 1 ∧ g.sent.Pairwise (·.cursor ≤ ·.cursor) := by
  have c0 : Consumer.Reached (.under "a") 1 _ := .start
  have c1 := c0.step (.moved _ (.serve _ (.put "a/1" [1])))
  have c2 := c1.step (.called _ rfl)
  have c3 := c2.step (.answered _ rfl (.inl ⟨_, rfl, rfl⟩))
  have c4 := c3.step (.ended _ rfl)
  have c5 := c4.step (.moved _ (.serve _ (.put "a/2" [2])))
  have c6 := c5.step (.called _ rfl)
  have c7 := c6.step (.answered _ rfl (.inl ⟨_, rfl, rfl⟩))
  have c8 := c7.step (.ended _ rfl)
  have g0 : Feeding.Reached ⟨.key "a/1", 0, 500⟩ 1 _ := .start
  have g1 := g0.step (.moved _ (.serve _ (.put "a/1" [1])))
  have g2 := g1.step (.begun _ rfl rfl)
  have g3 := g2.step (.answered _ rfl (.inl ⟨_, rfl, rfl⟩))
  have g4 := g3.step (.ended _ rfl)
  have g5 := g4.step (.taken _ rfl)
  have known := followers_know_scope c8 g5
  exact ⟨_, _, c8, g5, rfl, (known.1 2 rfl).1, rfl, rfl, known.2.2.2.1⟩

end NetPool
