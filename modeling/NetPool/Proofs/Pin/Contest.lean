import NetPool.Proofs.Pin.Stable

/-! Callers that race for a workload, and the claims that are left when all have returned: the one that
counts, and each that a caller had created when a request of his failed. He tries again, finds that the
workload is pinned, and never looks at his own claim. -/

namespace NetPool

structure Contest (ι : Type) extends Pinning ι where
  /-- The claims that callers had created when a request of theirs to the store failed. -/
  abandoned : List KeyValue

namespace Contest

variable {ι : Type}

/-- The claim that a caller has created last. -/
def claim? (s : Pinning ι) (i : ι) : Option KeyValue := (s.own i).bind s.store.find?

/-- What a caller with this claim abandons, by the answer to a request. -/
def lost (mine : Option KeyValue) : (r : Request) → r.Answer → List KeyValue
  | .store _, .error _ => mine.toList
  | _, _ => []

/-- What callers promise to each other, for one workload; at first nothing is pinned to it. -/
structure Sound (p : PinPool) (w : String) (s : Contest ι) : Prop where
  orderly : Pinning.Orderly s.toPinning
  canonical : ∀ e ∈ s.store.entries, p.Pins w e → ∃ a, e.key = p.key a
  stands : ∀ e ∈ s.abandoned, e ∈ s.store.entries
  told : ∀ e ∈ s.store.entries, p.Pins w e →
    p.First s.store.entries w e ∨ e ∈ s.abandoned ∨ ∃ i, s.own i = some e.key

structure Rely (p : PinPool) (i : ι) (s t : Contest ι) : Prop where
  pinning : Pinning.Rely p i s.toPinning t.toPinning
  abandoned : s.abandoned ⊆ t.abandoned
  foreign : ∀ e ∈ t.abandoned, s.own i = some e.key → e ∈ s.abandoned

theorem Rely.refl {p : PinPool} (i : ι) (s : Contest ι) : Rely p i s s :=
  ⟨.refl i _, fun _ => id, fun _ mem _ => mem⟩

theorem Rely.trans {p : PinPool} {i : ι} {s t u : Contest ι} (first : Rely p i s t)
    (second : Rely p i t u) : Rely p i s u :=
  ⟨first.pinning.trans second.pinning, fun _ mem => second.abandoned (first.abandoned mem),
    fun e mem own => first.foreign e (second.foreign e mem (first.pinning.own.trans own)) own⟩

/-- The claim that a caller has created last, if it is one of the workload, counts or is abandoned. -/
def Settled (p : PinPool) (w : String) (i : ι) (s : Contest ι) : Prop :=
  ∀ key, s.own i = some key → ∃ e ∈ s.store.entries, e.key = key ∧
    (p.Pins w e → p.First s.store.entries w e ∨ e ∈ s.abandoned)

/-- A caller has created a claim and is still to find out whether it counts. -/
structure Claimed (p : PinPool) (i : ι) (w : String) (a : Address) (s : Contest ι) : Prop where
  claimed : Pinning.Claimed p i w a s.toPinning
  held : ∀ e ∈ s.abandoned, e.key ≠ p.key a

variable {p : PinPool} {i j : ι} {s t : Contest ι} {w : String} {a : Address}
  {r : StoreRequest} {x : Except StoreError r.Result}

theorem Settled.stays (rely : Rely p i s t) (settled : Settled p w i s) : Settled p w i t := by
  intro key own
  have before := rely.pinning.own.symm.trans own
  obtain ⟨e, mem, rfl, left⟩ := settled key before
  refine ⟨e, rely.pinning.kept e mem before, rfl, fun pins => ?_⟩
  rcases left pins with first | abandoned
  · exact .inl (rely.pinning.lasts w e first)
  · exact .inr (rely.abandoned abandoned)

/-- Requests that write nothing leave a caller settled. -/
theorem Settled.unwritten (entries : t.store.entries = s.store.entries) (own : t.own = s.own)
    (abandoned : s.abandoned ⊆ t.abandoned) (settled : Settled p w i s) : Settled p w i t := by
  intro key mine
  obtain ⟨e, mem, same, left⟩ := settled key (own ▸ mine)
  refine ⟨e, entries.symm ▸ mem, same, fun pins => ?_⟩
  rw [entries]
  exact (left pins).imp_right fun mem => abandoned mem

theorem Claimed.stays (rely : Rely p i s t) (claimed : Claimed p i w a s) : Claimed p i w a t :=
  ⟨claimed.claimed.stays rely.pinning, fun e mem same =>
    claimed.held e (rely.foreign e mem (same ▸ claimed.claimed.own)) same⟩

variable [DecidableEq ι]

/-- An answer to a request, with what it makes the caller abandon. -/
def Answers (i : ι) (s : Contest ι) (r : Request) (x : r.Answer) (t : Contest ι) : Prop :=
  Pinning.Answers i s.toPinning r x t.toPinning ∧
    t.abandoned = lost (claim? s.toPinning i) r x ++ s.abandoned

/-- An answer that is computed; some requests to the store fail. -/
def reply (fails : StoreRequest → Bool) (pick : ι → (bound : Nat) → Fin (bound + 1)) (i : ι)
    (s : Contest ι) (r : Request) : Option (r.Answer × Contest ι) :=
  (answer r).map fun x => (x.1, ⟨x.2, lost (claim? s.toPinning i) r x.1 ++ s.abandoned⟩)
where
  answer : (r : Request) → Option (r.Answer × Pinning ι)
    | .store r => if fails r then some (.error (.unavailable "no answer"), s.toPinning)
        else Pinning.reply pick i s.toPinning (.store r)
    | r => Pinning.reply pick i s.toPinning r

theorem reply_answers {fails : StoreRequest → Bool} {pick : ι → (bound : Nat) → Fin (bound + 1)} {i : ι}
    {s t : Contest ι} {r : Request} {x : r.Answer} (answered : reply fails pick i s r = some (x, t)) :
    Answers i s r x t := by
  obtain ⟨y, given, same⟩ := Option.map_eq_some_iff.1 answered
  cases same
  refine ⟨?_, rfl⟩
  cases r with
  | store r =>
    simp only [reply.answer] at given
    split at given
    · cases given
      exact .inr ⟨⟨_, rfl⟩, rfl⟩
    · exact Pinning.reply_answers given
  | cache | chore | now | instant | sleep | pick | isLive | apply =>
    have given : Pinning.reply pick i s.toPinning _ = some y := given
    exact Pinning.reply_answers given

/-- Whatever a caller has, he abandons it when a request fails. -/
theorem Answers.failed {e : StoreError} (answer : Answers i s (.store r) (.error e) t)
    (orderly : Pinning.Orderly s.toPinning) : Settled p w i t := by
  obtain ⟨entries, own⟩ := answer.1.unwritten (StoreRequest.wrote_error r e)
  intro key mine
  rw [own] at mine
  obtain ⟨e, mem, rfl⟩ := orderly.owned i key mine
  have here : claim? s.toPinning i = some e := by
    rw [claim?, mine]
    exact (Store.find?_eq_some_iff orderly.ascending).2 ⟨mem, rfl⟩
  refine ⟨e, entries.symm ▸ mem, rfl, fun _ => .inr ?_⟩
  rw [answer.2, here]
  exact List.mem_cons_self

/-- What a caller promises of a request to the store. -/
structure Means (p : PinPool) (w : String) (i : ι) (s : Contest ι) (r : StoreRequest) : Prop where
  pinning : Pinning.Intends p i s.toPinning r
  settled : r.adds = true → Settled p w i s
  spares : r.removes = true → ∀ e ∈ s.abandoned, s.own i ≠ some e.key

theorem Sound.stands_answered (sound : Sound p w s) (means : Means p w i s r)
    (answer : Answers i s (.store r) x t) {e : KeyValue} (mem : e ∈ t.abandoned) :
    e ∈ t.store.entries := by
  rw [answer.2] at mem
  rcases List.mem_append.1 mem with new | old
  · cases x with
    | ok => cases new
    | error failure =>
      obtain ⟨key, _, here⟩ := Option.bind_eq_some_iff.1 (Option.mem_toList.1 new)
      rw [(answer.1.unwritten (StoreRequest.wrote_error r failure)).1]
      exact ((Store.find?_eq_some_iff sound.orderly.ascending).1 here).1
  · have here := sound.stands e old
    cases removes : r.removes with
    | false => exact answer.1.keeps sound.orderly.ascending removes here
    | true =>
      cases answer.1.effect sound.orderly means.pinning with
      | nothing entries => exact entries.symm ▸ here
      | created _ _ _ _ _ _ _ _ entries => exact (entries e).2 (.inr here)
      | deleted gone _ _ _ mine _ _ _ entries =>
        exact (entries e).2 ⟨here, fun same => means.spares removes e old (same ▸ mine)⟩

theorem Sound.told_answered (sound : Sound p w s) (means : Means p w i s r)
    (answer : Answers i s (.store r) x t) {e : KeyValue} (mem : e ∈ t.store.entries) (pins : p.Pins w e) :
    p.First t.store.entries w e ∨ e ∈ t.abandoned ∨ ∃ j, t.own j = some e.key := by
  have effect := answer.1.effect sound.orderly means.pinning
  have abandoned : s.abandoned ⊆ t.abandoned := answer.2 ▸ List.subset_append_right _ _
  have old (here : e ∈ s.store.entries) (mine : s.own i = some e.key → p.First s.store.entries w e ∨
      e ∈ s.abandoned ∨ t.own i = some e.key) :
      p.First t.store.entries w e ∨ e ∈ t.abandoned ∨ ∃ j, t.own j = some e.key := by
    rcases sound.told e here pins with first | left | ⟨j, own⟩
    · exact .inl (effect.first sound.orderly first)
    · exact .inr (.inl (abandoned left))
    · by_cases same : j = i
      · subst same
        rcases mine own with first | left | own
        · exact .inl (effect.first sound.orderly first)
        · exact .inr (.inl (abandoned left))
        · exact .inr (.inr ⟨j, own⟩)
      · have others := (answer.1.rely sound.orderly means.pinning same).own
        exact .inr (.inr ⟨j, others.trans own⟩)
  cases effect with
  | nothing entries _ own => exact old (entries ▸ mem) fun mine => .inr (.inr (own.trans mine))
  | created new _ _ _ _ _ _ free entries _ own =>
    rcases (entries e).1 mem with rfl | here
    · exact .inr (.inr ⟨i, own⟩)
    · refine old here fun mine => ?_
      have adds : r.adds = true := by
        by_contra not
        have new := answer.1.fewer (Bool.eq_false_iff.2 not) ((entries new).2 (.inl rfl))
        exact free _ new rfl
      obtain ⟨f, there, same, left⟩ := means.settled adds e.key mine
      cases sound.orderly.ascending.eq_of_key there here same
      exact (left pins).imp_right .inl
  | deleted gone _ _ _ mine _ _ _ entries =>
    obtain ⟨here, other⟩ := (entries e).1 mem
    exact old here fun own => absurd (Option.some.inj (own.symm.trans mine)) other

theorem Sound.answered (sound : Sound p w s) (means : Means p w i s r)
    (answer : Answers i s (.store r) x t) : Sound p w t := by
  refine ⟨answer.1.orderly sound.orderly means.pinning, fun e mem pins => ?_,
    fun e => sound.stands_answered means answer, fun e => sound.told_answered means answer⟩
  cases answer.1.effect sound.orderly means.pinning with
  | nothing entries => exact sound.canonical e (entries ▸ mem) pins
  | created new a _ _ key _ _ _ entries =>
    rcases (entries e).1 mem with rfl | here
    · exact ⟨a, key⟩
    · exact sound.canonical e here pins
  | deleted _ _ _ _ _ _ _ _ entries => exact sound.canonical e ((entries e).1 mem).1 pins

theorem Sound.rely (sound : Sound p w s) (means : Means p w i s r) (answer : Answers i s (.store r) x t)
    (other : j ≠ i) : Rely p j s t := by
  refine ⟨answer.1.rely sound.orderly means.pinning other, answer.2 ▸ List.subset_append_right _ _,
    fun e mem own => ?_⟩
  rw [answer.2] at mem
  rcases List.mem_append.1 mem with new | old
  · cases x with
    | ok => cases new
    | error failure =>
      obtain ⟨key, mine, here⟩ := Option.bind_eq_some_iff.1 (Option.mem_toList.1 new)
      cases Store.find?_key here
      exact absurd (sound.orderly.apart j i e.key own mine) other
  · exact old

end Contest

end NetPool
