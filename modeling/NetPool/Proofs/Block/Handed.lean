import NetPool.Proofs.Block.Tended
import NetPool.Proofs.Search

/-! What becomes of the blocks that are handed out. -/

namespace NetPool

/-- A call that gives nothing back: an allocation on the pool, or a pass. -/
def BlockCall.Taking (name : String) : BlockCall → Prop
  | .allocate _ _ pool _ => pool.name = name
  | .sync _ => True
  | _ => False

namespace BlockPool

open Cluster

variable {ν : Type}

/-- The block was claimed for the owner, and the store holds the claim unless it was given up. -/
structure HandedOut (p : BlockPool ν) (pool : Pool) (owner : String) (claim : RangeClaim)
    (s : Cluster ν) : Prop where
  here : claim.pool = p.name
  whose : claim.owner = owner
  size : claim.range.size.toNat = ((1 : UInt64) <<< UInt64.ofNat pool.blockExp).toNat
  stays : s.Entered (p.layout.rangeKey p.name claim.range.start pool.blockExp)
      (ClaimRecord.ofOwner owner).encode ∨
    s.GivenUp p (p.layout.rangeKey p.name claim.range.start pool.blockExp)

def Handed (p : BlockPool ν) : BlockCall → Option RangeClaim → Cluster ν → Prop
  | .allocate _ _ pool owner, some claim, s => p.HandedOut pool owner claim s
  | _, _, _ => True

variable {p : BlockPool ν} {calm : Prop} {i : ν × Nat} {g : Grant} {s t : Cluster ν}

theorem HandedOut.later {pool : Pool} {owner : String} {claim : RangeClaim} (leaves : Leaves p s t)
    (handed : p.HandedOut pool owner claim s) : p.HandedOut pool owner claim t :=
  ⟨handed.here, handed.whose, handed.size, leaves.entered handed.stays⟩

theorem Handed.later {call : BlockCall} {x : Option RangeClaim} (leaves : Leaves p s t)
    (handed : p.Handed call x s) : p.Handed call x t := by
  unfold Handed at handed ⊢
  split at handed
  · exact handed.later leaves
  · trivial

/-- Of a block that was given up, the range itself was refused. -/
theorem HandedOut.refused {pool : Pool} {owner : String} {claim : RangeClaim}
    (handed : p.HandedOut pool owner claim s) :
    s.Entered (p.layout.rangeKey p.name claim.range.start pool.blockExp)
      (ClaimRecord.ofOwner owner).encode ∨ claim.range ∈ s.refused := by
  rcases handed.stays with entered | ⟨r, mem, key⟩
  · exact .inl entered
  · right
    obtain ⟨n, same, size, le⟩ := KeyLayout.rangeKeyFor_eq_some.1 key
    obtain ⟨start, rfl⟩ := KeyLayout.rangeKey_inj same
    have block := handed.size
    rw [one_shiftLeft_toNat le] at block
    exact AddressRange.eq_of_start_size start (block.trans size.symm) ▸ mem

variable [DecidableEq ν]

def care (p : BlockPool ν) (calm : Prop) : Agreement (p.stage calm (·.Taking p.name)) where
  valid := Tended p calm
  rely := Counts p calm
  does := Does p
  idle := Idle
  fact := p.Handed
  refl := Counts.refl
  trans := Counts.trans
  idle_rely counts idle := idle.stays counts
  lasts does handed := handed.later does.leaves
  moves _ move := move.elim

/-- The caller holds the lock, and has been refused nothing. -/
structure Minds (p : BlockPool ν) (i : ν × Nat) (g : Grant) (s : Cluster ν) : Prop where
  locked : s.Locked p i g
  free : s.doomed i = none

omit [DecidableEq ν] in
theorem Minds.stays (counts : Counts p calm i s t) (minds : p.Minds i g s) : p.Minds i g t :=
  ⟨minds.locked.stays counts.held, counts.doomed.trans minds.free⟩

theorem Minds.asked (minds : p.Minds i g s) {r : StoreRequest} {x : Except StoreError r.Result}
    (locks : r.locks = false) (answer : Answers p calm i s (.store r) x t) : p.Minds i g t :=
  ⟨minds.locked.stays (congrFun (answer.held_eq locks) i), answer.after_store.1⟩

/-- What runs under the lock of the pool. -/
theorem minding_safe {o : Operation α} (fact : Except Failure α → Cluster ν → Prop)
    (lasts : ∀ {x s t}, Leaves p s t → fact x s → fact x t)
    (inside : ∀ {g s}, Tended p calm s → p.Minds i g s → s.loaded i = false →
      Safe ((p.care calm).terms i) (fun x t => p.Minds i g t ∧ fact x t) o s) (idle : Idle i s) :
    Safe ((p.care calm).terms i) (fun x t => Idle i t ∧ fact x t) (Operation.underLock p.lock o) s := by
  refine Safe.underLock (T := (p.care calm).terms i) (Idle i)
    (fun g t => p.Minds i g t ∧ t.loaded i = false) (fun g x t => p.Minds i g t ∧ fact x t)
    (fun x t => Idle i t ∧ fact x t) (fun counts idle => idle.stays counts)
    (fun counts _ known => ⟨known.1.stays counts, lasts counts.leaves known.2⟩)
    (fun counts _ known => ⟨known.1.stays counts, lasts counts.leaves known.2⟩)
    (fun {s x t} tended idle (answer : Answers p calm i s _ x t) => ?_)
    (fun tended known => inside tended known.1 known.2)
    (fun {g a s x t} tended known (answer : Answers p calm i s _ x t) => ?_) idle
  · obtain ⟨g, granted, locked⟩ := tended.steady.enters idle.held answer
    have deed := tended.asked idle.doomed answer rfl trivial
    obtain ⟨free, loaded⟩ := answer.after_store
    exact ⟨deed.tended, ⟨deed.does, deed.others⟩, g, granted, ⟨locked, free⟩,
      loaded.trans idle.loaded⟩
  · have deed := tended.asked known.1.free answer rfl known.1.locked.1
    obtain ⟨free, loaded⟩ := answer.after_store
    exact ⟨deed.tended, ⟨deed.does, deed.others⟩, ⟨known.1.locked.leaves answer, loaded, free⟩,
      lasts deed.does.leaves known.2⟩

theorem claimFirstFit_hands {a : BlockAllocator} {pool : Pool} (layout : a.layout = p.layout)
    (name : pool.name = p.name) (kind : pool.kind = .range) (owner : String) (minds : p.Minds i g s) :
    Safe ((p.care calm).terms i)
      (fun x t => p.Minds i g t ∧ ∀ c, x = .ok c → p.HandedOut pool owner c t)
      (a.claimFirstFit pool owner) s := by
  rw [BlockAllocator.claimFirstFit_eq]
  intro t counts (tended : Tended p calm t) x u (answer : Answers p calm i t _ x u)
  have minds := minds.stays counts
  have deed := tended.asked minds.free answer rfl trivial
  have minds := minds.asked rfl answer
  refine ⟨deed.tended, ⟨deed.does, deed.others⟩, ?_⟩
  cases x with
  | error e => exact fun v counts _ => ⟨minds.stays counts, nofun⟩
  | ok found =>
    refine BlockAllocator.place_safe (p.Minds i g) (fun counts _ minds => minds.stays counts)
      (fun {x s t} counts _ known => ⟨known.1.stays counts, fun c same =>
        (known.2 c same).later counts.leaves⟩) (fun minds => ⟨minds, nofun⟩)
      (fun {range s x t} fit tended minds (answer : Answers p calm i s _ x t) => ?_) minds
    have deed := tended.asked minds.free answer rfl trivial
    have minds := minds.asked rfl answer
    refine ⟨deed.tended, ⟨deed.does, deed.others⟩, fun _ => ⟨minds, nofun⟩, fun revision created =>
      ⟨minds, fun c same => ?_⟩⟩
    cases same
    have block : pool.blockSize = 1 <<< UInt64.ofNat pool.blockExp := by rw [Pool.blockSize, kind]
    have size := (Search.firstFit_sound fit (block ▸ one_shiftLeft_pos _)).1
    refine ⟨name, rfl, block ▸ size, .inl ?_⟩
    rw [layout, name] at answer
    obtain ⟨exist, _⟩ | ⟨_, written⟩ := answer.create_cases tended.steady
    · cases created.symm.trans exist
    · refine ⟨s.store.written _ _, ?_, rfl, rfl⟩
      rw [written]
      exact (Store.mem_write tended.steady.ascending).2 (.inl rfl)

/-- The range is added to a file that the caller has not loaded. -/
theorem remember_kept (tended : Tended p calm s) (idle : Idle i s) {r : AddressRange}
    {x : Except Failure Unit} (answer : Answers p calm i s (.cache (.append p.name r)) x t) :
    Deed p calm i s (.cache (.append p.name r)) t ∧ Idle i t := by
  have unrefused : refusal (s.loaded i) (.append p.name r) x = none := by
    rw [idle.loaded]
    cases x <;> rfl
  have deed : Deed p calm i s (.cache (.append p.name r)) t := by
    refine tended.filed idle.doomed answer rfl nofun (fun calmly => ⟨unrefused, ?_⟩)
      (.inr fun j other calmly loaded => ?_)
    · have apart := ((tended.calmly calmly).2 i.1).1
      rcases answer.kept_append tended.steady with ⟨_, free, kept⟩ | ⟨_, _, kept⟩
      · exact kept ▸ apart.append free
      · exact kept ▸ apart
    · refine answer.kept_other fun same => ?_
      have quiet := answer.2.2.1 calmly j other same
      rw [loaded] at quiet
      cases quiet
  obtain ⟨doomed, _, loaded⟩ := answer.after_file
  exact ⟨deed, (congrFun (answer.held_eq rfl) i).trans idle.held, loaded.trans idle.loaded,
    doomed.trans unrefused⟩

theorem allocate_hands {a : BlockAllocator} {pool : Pool} (layout : a.layout = p.layout)
    (name : pool.name = p.name) (owner : String) (tended : Tended p calm s) (idle : Idle i s) :
    Safe ((p.care calm).terms i)
      (Safe.Outcome (fun c t => p.HandedOut pool owner c t ∧ Idle i t) (Idle i))
      (a.allocate pool owner) s := by
  have mutex : a.layout.mutex .range pool.name = p.lock := by rw [layout, name]; rfl
  refine BlockAllocator.allocate_safe (T := (p.care calm).terms i) (Idle i)
    (fun c t => p.HandedOut pool owner c t ∧ Idle i t)
    (fun c t => p.HandedOut pool owner c t ∧ Idle i t) (fun counts idle => idle.stays counts)
    (fun counts _ known => ⟨known.1.later counts.leaves, known.2.stays counts⟩)
    (fun counts _ known => ⟨known.1.later counts.leaves, known.2.stays counts⟩)
    (fun {s t ms x} tended idle answer => ?_) (fun {s} kind tended idle => ?_)
    (fun _ known => known)
    (fun {c s x t} tended known (answer : Answers p calm i s _ x t) => ?_) tended idle
  · cases answer
    exact ⟨tended, ⟨.leaving (.refl s) idle.doomed, fun j _ => .refl j s⟩, idle⟩
  · rw [mutex]
    refine (minding_safe (fun x t => ∀ c, x = .ok c → p.HandedOut pool owner c t)
      (fun leaves known c same => (known c same).later leaves)
      (fun _ minds _ => claimFirstFit_hands layout name kind owner minds) idle).weaken
      fun x t _ known => ?_
    cases x with
    | ok c => exact ⟨known.2 c rfl, known.1⟩
    | error e => exact known.1
  · rw [known.1.here] at answer ⊢
    obtain ⟨deed, idle⟩ := remember_kept tended known.2 answer
    exact ⟨deed.tended, ⟨deed.does, deed.others⟩, known.1.later deed.does.leaves, idle⟩

end BlockPool

end NetPool
