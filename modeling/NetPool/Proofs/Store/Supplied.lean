import NetPool.Proofs.Store.Consumer

/-! The updates that one who follows a scope is supplied with, be it by calls of his own or by a feed:
each takes what was told before to what the scope held at its cursor. -/

namespace NetPool

/-- A snapshot has its entries ascending, each key once. -/
def Observation.Sorted (o : Observation) : Prop :=
  ∀ entries, o.update = .snapshot entries → Store.Ascending entries

abbrev Sorting (x : Except StoreError Observation) (_ : Lived) : Prop := ∀ o, x = .ok o → o.Sorted

theorem readScope_sorted (scope : Scope) (l : Lived) : Safe following Sorting (readScope scope) l := by
  intro m later right x after (answer : m.Answers _ x after)
  refine ⟨(answer.keeps right).1, trivial, fun n _ _ o ok entries snapshot => ?_⟩
  rcases answer with ⟨s, served, rfl⟩ | ⟨⟨e, rfl⟩, _⟩
  · obtain ⟨past, chronicle, _⟩ := right
    cases x with
    | error e => cases ok
    | ok found =>
      cases ok
      cases snapshot
      rw [Store.range_found chronicle.ascending (congrArg Prod.fst served)]
      exact (chronicle.ascending.filter _).filter _
  · cases ok

theorem watchFrom_sorted (scope : Scope) (cursor : Option Nat) (l : Lived) :
    Safe following Sorting (watchFrom scope cursor) l := by
  cases cursor with
  | none => exact readScope_sorted scope l
  | some cursor =>
    intro m later valid x after (answer : m.Answers _ x after)
    refine ⟨(answer.keeps valid).1, trivial, ?_⟩
    cases x with
    | error e =>
      cases e with
      | compacted => exact readScope_sorted scope after
      | unavailable | timeout | internal => exact fun _ _ _ o ok => nomatch ok
    | ok batch =>
      intro n _ _ o ok entries snapshot
      cases ok
      cases snapshot

namespace Lived

variable {l m : Lived}

/-- The store always had its entries ascending. -/
def Ordered (l : Lived) : Prop := ∀ s ∈ l.seen, Store.Ascending s.entries

theorem start_ordered (limit : Nat) : (start (Store.empty limit)).Ordered := by
  intro s mem
  cases List.mem_singleton.1 mem
  exact .nil

theorem Ordered.moved (ordered : l.Ordered) (right : l.Right) {s : Store} (m : Store.Moves l.store s) :
    (l.moved s).Ordered := by
  obtain ⟨past, chronicle, _⟩ := (right.moved m).1
  exact List.forall_mem_cons.2 ⟨chronicle.ascending, ordered⟩

theorem Ordered.answered (ordered : l.Ordered) (right : l.Right) {r : Request} {x : r.Answer}
    (answer : l.Answers r x m) : m.Ordered := by
  cases r with
  | store r =>
    rcases answer with ⟨s, served, rfl⟩ | ⟨_, rfl⟩
    · have moves := Store.Moves.serve l.store r
      rw [served] at moves
      exact ordered.moved right moves
    · exact ordered
  | cache | chore | now | instant | sleep | pick | isLive | apply =>
    cases answer
    exact ordered

end Lived

/-- What holds after each of the observations, and of each. -/
structure Supply (scope : Scope) (l : Lived) (os : List Observation) : Prop where
  ordered : l.Ordered
  held : ∀ before o, before ++ [o] <+: os → l.Held scope o.cursor (Feeding.told (before ++ [o]))
  sorted : ∀ o ∈ os, o.Sorted

namespace Supply

variable {scope : Scope} {l m : Lived} {os : List Observation}

theorem later (supply : Supply scope l os) (later : l.Later m) (ordered : m.Ordered) : Supply scope m os :=
  ⟨ordered, fun before o sub => (supply.held before o sub).later later, supply.sorted⟩

theorem of_isPrefix {front : List Observation} (supply : Supply scope l os) (sub : front <+: os) :
    Supply scope l front :=
  ⟨supply.ordered, fun before o inner => supply.held before o (inner.trans sub),
    fun o mem => supply.sorted o (sub.subset mem)⟩

theorem append (supply : Supply scope l os) {o : Observation}
    (held : l.Held scope o.cursor (Feeding.told (os ++ [o]))) (sorted : o.Sorted) :
    Supply scope l (os ++ [o]) := by
  refine ⟨supply.ordered, fun before a sub => ?_, fun a mem => ?_⟩
  · rcases List.prefix_concat_iff.1 sub with whole | inner
    · obtain ⟨rfl, last⟩ := List.append_inj' whole rfl
      cases last
      exact held
    · exact supply.held before a inner
  · rcases List.mem_append.1 mem with old | new
    · exact supply.sorted a old
    · cases List.mem_singleton.1 new
      exact sorted

end Supply

namespace Consumer

/-- A consumer, and what his calls have come to so far. -/
inductive Polled (scope : Scope) (limit : Nat) : Consumer → List Observation → Prop
  | start : Polled scope limit (.start limit) []
  | moved {c os s} (polled : Polled scope limit c os) (m : Store.Moves c.world.store s) :
      Polled scope limit { c with world := c.world.moved s } os
  | step {c d os} (polled : Polled scope limit c os) (step : Step scope c d)
      (goes : ∀ o, c.call ≠ some (.pure (.ok o))) : Polled scope limit d os
  | took {c os o} (polled : Polled scope limit c os) (finished : c.call = some (.pure (.ok o))) :
      Polled scope limit (c.take (.ok o)) (os ++ [o])

variable {scope : Scope} {limit : Nat} {c d : Consumer} {os : List Observation}

theorem Polled.reached (polled : Polled scope limit c os) : Reached scope limit c := by
  induction polled with
  | start => exact .start
  | moved _ m ih => exact ih.step (.moved _ m)
  | step _ step _ ih => exact ih.step step
  | took _ finished ih => exact ih.step (.ended _ finished)

/-- Every run of a consumer is one of these. -/
theorem Reached.polled (reached : Reached scope limit c) : ∃ os, Polled scope limit c os := by
  induction reached with
  | start => exact ⟨[], .start⟩
  | @step c d _ step ih =>
    obtain ⟨os, polled⟩ := ih
    by_cases done : ∃ o, c.call = some (.pure (.ok o))
    · obtain ⟨o, done⟩ := done
      cases step with
      | moved m => exact ⟨os, polled.moved m⟩
      | called idle => cases idle.symm.trans done
      | answered waits => cases waits.symm.trans done
      | ended finished =>
        cases finished.symm.trans done
        exact ⟨_, polled.took done⟩
    · exact ⟨os, polled.step step fun o same => done ⟨o, same⟩⟩

theorem Step.later (right : c.world.Right) (ordered : c.world.Ordered) (step : Step scope c d) :
    c.world.Later d.world ∧ d.world.Ordered := by
  cases step with
  | moved m => exact ⟨(right.moved m).2, ordered.moved right m⟩
  | called => exact ⟨following.refl _, ordered⟩
  | answered _ answer => exact ⟨(answer.keeps right).2, ordered.answered right answer⟩
  | @ended x => cases x <;> exact ⟨following.refl _, ordered⟩

/-- A step that is no end of a call that has succeeded leaves the view, and sorts what is to come. -/
theorem Step.sorting (right : c.world.Right) (step : Step scope c d)
    (goes : ∀ o, c.call ≠ some (.pure (.ok o))) (calls : ∀ p ∈ c.call, Safe following Sorting p c.world) :
    d.view = c.view ∧ ∀ p ∈ d.call, Safe following Sorting p d.world := by
  cases step with
  | moved m => exact ⟨rfl, fun p mem => (calls p mem).later (right.moved m).2⟩
  | called =>
    refine ⟨rfl, fun p mem => ?_⟩
    cases mem
    exact watchFrom_sorted scope c.cursor c.world
  | answered waits answer =>
    refine ⟨rfl, fun p mem => ?_⟩
    cases mem
    exact (calls _ waits c.world (following.refl _) right _ _ answer).2.2
  | @ended x finished =>
    cases x with
    | error e => exact ⟨rfl, fun _ mem => nomatch mem⟩
    | ok o => exact absurd finished (goes o)

theorem Polled.supply (polled : Polled scope limit c os) : Supply scope c.world os ∧
    c.view = Feeding.told os ∧ ∀ p ∈ c.call, Safe following Sorting p c.world := by
  induction polled with
  | start =>
    exact ⟨⟨Lived.start_ordered limit, fun before o sub => by simp at sub, nofun⟩, rfl,
      fun _ mem => nomatch mem⟩
  | moved polled m ih =>
    obtain ⟨supply, view, calls⟩ := ih
    have right := polled.reached.right.world
    obtain ⟨_, later⟩ := right.moved m
    exact ⟨supply.later later (supply.ordered.moved right m), view, fun p mem => (calls p mem).later later⟩
  | step polled step goes ih =>
    obtain ⟨supply, view, calls⟩ := ih
    have right := polled.reached.right.world
    obtain ⟨same, calls⟩ := step.sorting right goes calls
    obtain ⟨later, ordered⟩ := step.later right supply.ordered
    exact ⟨supply.later later ordered, same.trans view, calls⟩
  | @took c os o polled finished ih =>
    obtain ⟨supply, view, calls⟩ := ih
    have right := polled.reached.right
    have told : Feeding.told (os ++ [o]) = o.update.onto c.view := by rw [Feeding.told_append, view]
    refine ⟨supply.append ?_ ?_, told.symm, fun _ mem => nomatch mem⟩
    · rw [told]
      exact (right.ended finished).2
    · exact calls _ finished c.world (following.refl _) right.world o rfl

end Consumer

namespace Feeding

variable {f : ScopeFeed} {limit : Nat} {c d : Feeding}

/-- What is about to be sent. -/
def Ready (s : ScopeFeed.State) : Prop := ∀ o, s.phase = .sending o → o.Sorted

theorem read_sorted (f : ScopeFeed) (s : ScopeFeed.State) {l : Lived} (right : l.Right) :
    Safe following (fun t _ => Ready t) (f.read s) l := by
  refine Safe.bind (watchFrom_sorted f.scope s.cursor l) right fun x m _ sorted => ?_
  cases x with
  | ok o =>
    intro n _ _ a sending
    cases sending
    exact sorted o rfl
  | error e =>
    rintro n _ kept x after (answer : n.Answers _ x after)
    exact ⟨(answer.keeps kept).1, trivial, fun _ _ _ o sending => nomatch sending⟩

structure Sorts (c : Feeding) : Prop where
  ordered : c.world.Ordered
  state : Ready c.state
  running : ∀ p ∈ c.running, Safe following (fun t _ => Ready t) p c.world
  sent : ∀ o ∈ c.sent, o.Sorted

theorem Sorts.step (right : c.Right f.scope) (sorts : c.Sorts) (step : Step f c d) : d.Sorts := by
  obtain ⟨ordered, state, running, sent⟩ := sorts
  cases step with
  | moved m =>
    exact ⟨ordered.moved right.world m, state,
      fun p mem => (running p mem).later (right.world.moved m).2, sent⟩
  | begun _ waits =>
    obtain ⟨_, rfl⟩ := activity_program waits
    refine ⟨ordered, state, fun p mem => ?_, sent⟩
    cases mem
    exact read_sorted f c.state right.world
  | answered waits answer =>
    refine ⟨ordered.answered right.world answer, state, fun p mem => ?_, sent⟩
    cases mem
    exact (running _ waits c.world (following.refl _) right.world _ _ answer).2.2
  | ended finished =>
    exact ⟨ordered, running _ finished c.world (following.refl _) right.world,
      (fun _ mem => nomatch mem), sent⟩
  | stopped waits =>
    cases activity_stopped waits
    exact ⟨ordered, nofun, (fun _ mem => nomatch mem), sent⟩
  | alarmed waits =>
    obtain ⟨_, rfl⟩ := activity_alarm waits
    exact ⟨ordered, nofun, (fun _ mem => nomatch mem), sent⟩
  | @taken _ _ _ o _ waits =>
    obtain ⟨phase, after, _⟩ := activity_send waits
    refine ⟨ordered, ?_, running, fun a mem => ?_⟩
    · rw [after]
      exact nofun
    · rcases List.mem_append.1 mem with old | new
      · exact sent a old
      · cases List.mem_singleton.1 new
        exact state o phase
  | refused waits =>
    refine ⟨ordered, ?_, running, sent⟩
    rw [(activity_send waits).2.2]
    exact nofun

theorem Reached.sorts (reached : Reached f limit c) : c.Sorts := by
  induction reached with
  | start => exact ⟨Lived.start_ordered limit, nofun, (fun _ mem => nomatch mem), nofun⟩
  | step reached step ih => exact ih.step reached.right step

end Feeding

/-- What one who follows a scope has been told so far, while the store lived on: by calls of his own, or by
a feed. -/
inductive Supplied (scope : Scope) : Lived → List Observation → Prop
  | polled {limit c os all} (polled : Consumer.Polled scope limit c all) (sub : os <+: all) :
      Supplied scope c.world os
  | fed {f : ScopeFeed} {limit c os} (follows : f.scope = scope) (fed : Feeding.Reached f limit c)
      (sub : os <+: c.sent) : Supplied scope c.world os

theorem Supplied.right {scope : Scope} {l : Lived} {os : List Observation} (supplied : Supplied scope l os) :
    l.Right ∧ Supply scope l os := by
  cases supplied with
  | polled polled sub => exact ⟨polled.reached.right.world, polled.supply.1.of_isPrefix sub⟩
  | fed follows fed sub =>
    subst follows
    have all : Supply _ _ _ := ⟨fed.sorts.ordered, fed.right.held, fed.sorts.sent⟩
    exact ⟨fed.right.world, all.of_isPrefix sub⟩

end NetPool
