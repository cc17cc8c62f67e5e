import NetPool.Proofs.Draw
import NetPool.Proofs.Pin.Earliest

/-! A call that pins an address, request by request, and what is known at each of them. Whoever states
this for terms of his own, and shows it kept by each request, has shown the call safe on these terms. -/

namespace NetPool.PinAllocator

section Requests

variable (a : PinAllocator)

/-- After a claim was created, with the pins that were read then. -/
def keep (p : Pool) (claim : FixedClaim) (pins : List Pin) : Operation FixedClaim :=
  match pinned claim.workload pins with
  | none => return claim
  | some winner =>
    if winner.address = claim.address then return claim
    else
      (.ask (.store (.delete (a.layout.fixedKey p.name claim.address)))
        (Program.onwardStored fun _ => .pure (.ok winner)) : Program _)

theorem settle_eq (p : Pool) (claim : FixedClaim) : a.settle p claim =
    .ask (.store (.range (a.layout.claimStart .fixed p.name))) (Program.onwardStored fun found =>
      a.keep p claim (decodeClaims (pinOf a.layout) found.entries)) := by
  rw [settle, pins, Operation.readClaims_bind]
  congr 1
  funext x
  cases x with
  | error e => rfl
  | ok found =>
    simp only [Program.onwardStored, keep]
    cases pinned claim.workload (decodeClaims (pinOf a.layout) found.entries) with
    | none => rfl
    | some winner =>
      dsimp only
      split
      · rfl
      · change Program.ask _ _ = Program.ask _ _
        congr 1
        funext x
        cases x <;> rfl

/-- Creates a claim of a free address. -/
def pin (p : Pool) (owner workload : String) (address : Address) : Operation (Option FixedClaim) :=
  (.ask (.store (.create (a.layout.fixedKey p.name address) (PinPool.record owner workload)))
    (Program.onwardStored fun outcome =>
      match outcome with
      | .alreadyExists => .pure (.ok none)
      | .created _ => Program.bind (a.settle p { pool := p.name, address, owner, workload })
          (Program.onward fun claim => .pure (.ok (some claim)))) : Program _)

def pinAny (p : Pool) (owner workload : String) (pins : List Pin) : Operation (Option FixedClaim) :=
  match pinned workload pins with
  | some claim => return some claim
  | none => Program.bind (pickFree p pins) (Program.onward (a.pin p owner workload))

theorem tryClaim_eq (p : Pool) (owner workload : String) : a.tryClaim p owner workload =
    .ask (.store (.range (a.layout.claimStart .fixed p.name))) (Program.onwardStored fun found =>
      a.pinAny p owner workload (decodeClaims (pinOf a.layout) found.entries)) := by
  rw [tryClaim, pins, Operation.readClaims_bind]
  congr 1
  funext x
  cases x with
  | error e => rfl
  | ok found =>
    simp only [Program.onwardStored, pinAny]
    cases pinned workload (decodeClaims (pinOf a.layout) found.entries) with
    | some claim => rfl
    | none =>
      dsimp only
      rw [Operation.bind_eq]
      congr 1
      funext x
      cases x with
      | error e => rfl
      | ok address =>
        simp only [Program.onward, pin]
        rw [Operation.store_bind]
        congr 1
        funext x
        cases x with
        | error e => rfl
        | ok outcome =>
          cases outcome with
          | alreadyExists => rfl
          | created => exact Operation.bind_eq _ _

theorem claim_eq (p : Pool) (owner workload : String) : a.claim p owner workload =
    if p.kind ≠ .fixed then Operation.invalid (.poolKind p.name p.kind)
    else if workload = "" then Operation.invalid .workloadEmpty
    else a.retry.run p.name (a.tryClaim p owner workload) := by
  by_cases kind : p.kind ≠ .fixed
  · rw [claim, if_pos kind, if_pos kind]
    rfl
  · rw [claim, if_neg kind, if_neg kind]
    split
    · rfl
    · rfl

end Requests

variable {σ : Type}

/-- What is known after a request to create a claim. -/
def Created (made idle : σ → Prop) : Creation → σ → Prop
  | .created _ => made
  | .alreadyExists => idle

/-- The outline of a call for a workload. What is known is `idle` before an attempt and after one that has
failed, `scanned` once the pins are read, `made` once a claim is created, `surveyed` once they are read
again, and `done` at the end. -/
structure Outline (T : Terms σ) (a : PinAllocator) (p : Pool) (owner workload : String) where
  idle : σ → Prop
  scanned : List Pin → σ → Prop
  made : Address → σ → Prop
  surveyed : Address → List Pin → σ → Prop
  done : FixedClaim → σ → Prop
  idle_stays : T.Stable idle
  scanned_stays : ∀ pins, T.Stable (scanned pins)
  made_stays : ∀ x, T.Stable (made x)
  surveyed_stays : ∀ x pins, T.Stable (surveyed x pins)
  done_stays : ∀ c, T.Stable (done c)
  scans : ∀ {s y t}, T.valid s → idle s →
    T.answers s (.store (.range (a.layout.claimStart .fixed p.name))) y t →
    T.valid t ∧ T.guarantee s (.store (.range (a.layout.claimStart .fixed p.name))) t ∧
      Safe.Outcome (fun found => scanned (decodeClaims (pinOf a.layout) found.entries)) idle y t
  finds : ∀ {pins c s}, T.valid s → scanned pins s → pinned workload pins = some c → done c s
  unfound : ∀ {pins s}, scanned pins s → idle s
  picks : ∀ {s bound n t}, T.valid s → idle s → T.answers s (.pick bound) n t →
    T.valid t ∧ T.guarantee s (.pick bound) t ∧ idle t
  creates : ∀ {x s y t}, T.valid s → idle s →
    T.answers s (.store (.create (a.layout.fixedKey p.name x) (PinPool.record owner workload))) y t →
    T.valid t ∧
      T.guarantee s (.store (.create (a.layout.fixedKey p.name x) (PinPool.record owner workload))) t ∧
      Safe.Outcome (Created (made x) idle) idle y t
  surveys : ∀ {x s y t}, T.valid s → made x s →
    T.answers s (.store (.range (a.layout.claimStart .fixed p.name))) y t →
    T.valid t ∧ T.guarantee s (.store (.range (a.layout.claimStart .fixed p.name))) t ∧
      Safe.Outcome (fun found => surveyed x (decodeClaims (pinOf a.layout) found.entries)) idle y t
  keeps : ∀ {x pins s}, T.valid s → surveyed x pins s →
    (∀ c, pinned workload pins = some c → c.address = x) → done ⟨p.name, x, owner, workload⟩ s
  withdraws : ∀ {x pins c s y t}, T.valid s → surveyed x pins s → pinned workload pins = some c →
    c.address ≠ x → T.answers s (.store (.delete (a.layout.fixedKey p.name x))) y t →
    T.valid t ∧ T.guarantee s (.store (.delete (a.layout.fixedKey p.name x))) t ∧
      Safe.Outcome (fun _ => done c) idle y t
  sleeps : ∀ {s ms y t}, T.valid s → idle s → T.answers s (.sleep ms) y t →
    T.valid t ∧ T.guarantee s (.sleep ms) t ∧ idle t

namespace Outline

variable {T : Terms σ} {a : PinAllocator} {p : Pool} {owner w : String} (o : Outline T a p owner w)
  {x : Address} {pins : List Pin} {s : σ}

theorem done_safe {c : FixedClaim} (done : o.done c s) :
    Safe T (Safe.Outcome o.done o.idle) (.pure (.ok c) : Program (Except Failure FixedClaim)) s :=
  fun _ rely _ => o.done_stays c rely done

theorem keep_safe (valid : T.valid s) (surveyed : o.surveyed x pins s) :
    Safe T (Safe.Outcome o.done o.idle) (a.keep p ⟨p.name, x, owner, w⟩ pins) s := by
  unfold keep
  split
  · rename_i none
    refine o.done_safe (o.keeps valid surveyed fun c some => ?_)
    rw [none] at some
    cases some
  · rename_i winner found
    split
    · rename_i same
      refine o.done_safe (o.keeps valid surveyed fun c other => ?_)
      rw [found] at other
      cases other
      exact same
    · rename_i other
      refine Safe.stored o.idle_stays (fun rely valid answer => ?_) fun _ done => o.done_safe done
      exact o.withdraws valid (o.surveyed_stays x pins rely surveyed) found other answer

theorem settle_safe (made : o.made x s) :
    Safe T (Safe.Outcome o.done o.idle) (a.settle p ⟨p.name, x, owner, w⟩) s := by
  rw [settle_eq]
  refine Safe.stored o.idle_stays (fun rely valid answer => ?_) fun valid => o.keep_safe valid
  exact o.surveys valid (o.made_stays x rely made) answer

/-- After a try: it has succeeded, or nothing has come of it. -/
abbrev Tried (d : Option FixedClaim) (s : σ) : Prop :=
  (∀ c ∈ d, o.done c s) ∧ (d = none → o.idle s)

theorem pin_safe (idle : o.idle s) : Safe T (Safe.Outcome o.Tried o.idle) (a.pin p owner w x) s := by
  unfold pin
  refine Safe.stored o.idle_stays
    (fun rely valid answer => o.creates valid (o.idle_stays rely idle) answer) ?_
  intro outcome t valid reached
  cases outcome with
  | alreadyExists => exact fun u rely _ => ⟨nofun, fun _ => o.idle_stays rely reached⟩
  | created revision =>
    refine Safe.bind (o.settle_safe reached) valid fun y u _ settled => ?_
    cases y with
    | error e => exact fun v rely _ => o.idle_stays rely settled
    | ok c =>
      intro v rely _
      refine ⟨?_, nofun⟩
      rintro d ⟨⟩
      exact o.done_stays c rely settled

theorem tryClaim_safe (idle : o.idle s) :
    Safe T (Safe.Outcome o.Tried o.idle) (a.tryClaim p owner w) s := by
  rw [tryClaim_eq]
  refine Safe.stored o.idle_stays
    (fun rely valid answer => o.scans valid (o.idle_stays rely idle) answer) ?_
  intro found t valid scanned
  unfold pinAny
  split
  · rename_i c pinned
    intro u rely _
    refine ⟨?_, nofun⟩
    rintro d ⟨⟩
    exact o.done_stays c rely (o.finds valid scanned pinned)
  · refine Safe.bind (Search.pickFree_safe o.idle_stays o.picks valid (o.unfound scanned)) valid
      fun y u _ picked => ?_
    cases y with
    | error e => exact fun v rely _ => o.idle_stays rely picked
    | ok x => exact o.pin_safe picked.2

theorem claim_safe (valid : T.valid s) (idle : o.idle s) :
    Safe T (Safe.Outcome o.done o.idle) (a.claim p owner w) s := by
  have refused {e : Failure} :
      Safe T (Safe.Outcome o.done o.idle) (.pure (.error e) : Program (Except Failure FixedClaim)) s :=
    fun t rely _ => o.idle_stays rely idle
  rw [claim_eq]
  split
  · exact refused
  · split
    · exact refused
    · exact Safe.attempt o.idle o.done o.idle_stays (fun rely _ => o.done_stays _ rely) o.sleeps
        (fun t _ idle => o.tryClaim_safe idle) valid idle

end Outline

end NetPool.PinAllocator
