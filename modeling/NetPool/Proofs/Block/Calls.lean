import Mathlib.Data.List.Pairwise
import NetPool.Allocation.Block
import NetPool.Proofs.Block.Cluster
import NetPool.Proofs.Record
import NetPool.Reconcile.Basic
import NetPool.Reconcile.Sweep

/-! The calls on a pool of blocks, request by request, and the rules by which they are proved safe. -/

namespace NetPool

/-- Claims share no address if no two entries stand for claims that do. -/
theorem apart_decoded {decode : KeyValue → Except Failure RangeClaim} {entries : List KeyValue}
    (asc : Store.Ascending entries) : Apart ((decodeClaims decode entries).map (·.range)) ↔
      ∀ e ∈ entries, ∀ f ∈ entries, e ≠ f → ∀ c d, decode e = .ok c → decode f = .ok d →
        c.range.overlaps d.range = false := by
  have both : Std.Symm fun e f => ∀ c, decode e = .ok c → ∀ d, decode f = .ok d →
      c.range.overlaps d.range = false :=
    ⟨fun e f clear d readF c readE => by
      rw [AddressRange.overlaps_comm]
      exact clear c readE d readF⟩
  rw [Apart, List.pairwise_map, decodeClaims, List.pairwise_filterMap]
  simp only [toOption_eq_some]
  constructor
  · exact fun pairs e he f hf other c d readE readF => pairs.forall he hf other c readE d readF
  · intro clear
    refine List.Pairwise.imp_of_mem ?_ asc
    intro e f he hf lt c readE d readF
    refine clear e he f hf ?_ c d readE readF
    rintro rfl
    exact String.lt_irrefl _ lt

theorem ofEntry_parse {l : KeyLayout} {e : KeyValue} {c : RangeClaim}
    (read : RangeClaim.ofEntry l e = .ok c) : l.parseRangeKey e.key = some (c.pool, c.range) := by
  unfold RangeClaim.ofEntry at read
  split at read
  · cases read
  · rename_i pool range parsed
    simp only [bind, Except.bind] at read
    split at read
    · cases read
    · cases read
      exact parsed

namespace BlockAllocator

def attempt (a : BlockAllocator) (p : Pool) (owner : String) : Operation (Option RangeClaim) :=
  Program.bind (Operation.underLock (a.layout.mutex .range p.name) (a.claimFirstFit p owner))
    (Program.onward fun claim => .pure (.ok (some claim)))

theorem allocate_eq {a : BlockAllocator} {p : Pool} (kind : p.kind = .range) (owner : String) :
    a.allocate p owner = Program.bind (a.retry.run p.name (a.attempt p owner))
      (Program.onward fun claim => (a.remember claim).bind fun _ => .pure (.ok claim)) := by
  have once : (do return some (← .underLock (a.layout.mutex .range p.name)
      (a.claimFirstFit p owner)) : Operation (Option RangeClaim)) = a.attempt p owner :=
    Operation.bind_eq _ _
  rw [allocate, once, if_neg (not_not_intro kind)]
  change Program.bind _ _ = _
  congr 1
  funext x
  cases x with
  | error e => rfl
  | ok claim =>
    change Program.bind (Program.bind _ _) _ = _
    rw [Program.bind_assoc]
    rfl

/-- The rest of an attempt, once the claims have been read. -/
def place (a : BlockAllocator) (p : Pool) (owner : String) (claimed : List AddressRange) :
    Operation RangeClaim :=
  match Search.firstFit p.bounds p.firstCandidate p.blockSize claimed with
  | none => throw (.capacityExhausted p.name p.blockSize)
  | some range => do
    let key := a.layout.rangeKey p.name range.start p.blockExp
    match ← Operation.store (.create key (ClaimRecord.ofOwner owner).encode) with
    | .created _ => return { pool := p.name, range, owner }
    | .alreadyExists => throw (.collision key)

/-- The ranges claimed by entries, ascending. -/
def listed (a : BlockAllocator) (entries : List KeyValue) : List AddressRange :=
  ((decodeClaims (RangeClaim.ofEntry a.layout) entries).mergeSort fun c d =>
    c.range.atMost d.range).map (·.range)

theorem claimFirstFit_eq (a : BlockAllocator) (p : Pool) (owner : String) :
    a.claimFirstFit p owner = Program.ask (.store (.range (a.layout.claimStart .range p.name)))
      (Program.onwardStored fun found => a.place p owner (a.listed found.entries)) := by
  change Program.ask _ _ = Program.ask _ _
  congr 1
  funext x
  cases x with
  | error e => rfl
  | ok found =>
    change ExceptT.bindCont _ _ = _
    unfold ExceptT.bindCont place
    rfl

variable {σ : Type} {T : Terms σ} {a : BlockAllocator} {p : Pool} {owner : String}

theorem place_safe {claimed : List AddressRange} (known : σ → Prop)
    {post : Except Failure RangeClaim → σ → Prop}
    (stays : ∀ {s t}, T.rely s t → T.valid t → known s → known t)
    (post_stays : ∀ {x s t}, T.rely s t → T.valid t → post x s → post x t)
    (fails : ∀ {e s}, known s → post (.error e) s)
    (creates : ∀ {range s x t},
      Search.firstFit p.bounds p.firstCandidate p.blockSize claimed = some range → T.valid s → known s →
      T.answers s (.store (.create (a.layout.rangeKey p.name range.start p.blockExp)
        (ClaimRecord.ofOwner owner).encode)) x t →
      T.valid t ∧ T.guarantee s (.store (.create (a.layout.rangeKey p.name range.start p.blockExp)
        (ClaimRecord.ofOwner owner).encode)) t ∧ (∀ e, post (.error e) t) ∧
        ∀ revision, x = .ok (.created revision) → post (.ok ⟨p.name, range, owner⟩) t)
    {s : σ} (start : known s) : Safe T post (a.place p owner claimed) s := by
  unfold place
  split
  · exact fun t rely valid => fails (stays rely valid start)
  · rename_i range found
    rw [Operation.store_bind]
    intro t rely valid x u answer
    obtain ⟨valid, done, failed, claimed⟩ := creates found valid (stays rely valid start) answer
    refine ⟨valid, done, ?_⟩
    cases x with
    | error e => exact fun v rely valid => post_stays rely valid (failed _)
    | ok creation =>
      cases creation with
      | created revision => exact fun v rely valid => post_stays rely valid (claimed revision rfl)
      | alreadyExists => exact fun v rely valid => post_stays rely valid (failed _)

theorem allocate_safe (idle : σ → Prop) (claimed kept : RangeClaim → σ → Prop)
    (idle_stays : ∀ {s t}, T.rely s t → idle s → idle t)
    (claimed_stays : ∀ {c s t}, T.rely s t → T.valid t → claimed c s → claimed c t)
    (kept_stays : ∀ {c s t}, T.rely s t → T.valid t → kept c s → kept c t)
    (sleeps : ∀ {s t ms x}, T.valid s → idle s → T.answers s (.sleep ms) x t →
      T.valid t ∧ T.guarantee s (.sleep ms) t ∧ idle t)
    (tries : ∀ {s}, p.kind = .range → T.valid s → idle s → Safe T (Safe.Outcome claimed idle)
      (Operation.underLock (a.layout.mutex .range p.name) (a.claimFirstFit p owner)) s)
    (unkept : ∀ {c s}, a.cached = false → claimed c s → kept c s)
    (keeps : ∀ {c s x t}, T.valid s → claimed c s → T.answers s (.cache (.append c.pool c.range)) x t →
      T.valid t ∧ T.guarantee s (.cache (.append c.pool c.range)) t ∧ kept c t)
    {s : σ} (valid : T.valid s) (start : idle s) :
    Safe T (Safe.Outcome kept idle) (a.allocate p owner) s := by
  by_cases kind : p.kind = .range
  · rw [allocate_eq kind]
    have once {s} (valid : T.valid s) (start : idle s) : Safe T
        (Safe.Outcome (fun x t => (∀ c ∈ x, claimed c t) ∧ (x = none → idle t)) idle)
        (a.attempt p owner) s := by
      refine Safe.bind (tries kind valid start) valid fun x t valid reached => ?_
      cases x with
      | ok c =>
        refine fun u rely valid => ⟨fun d same => ?_, nofun⟩
        cases same
        exact claimed_stays rely valid reached
      | error e => exact fun u rely valid => idle_stays rely reached
    have claim : Safe T (Safe.Outcome claimed idle) (a.retry.run p.name (a.attempt p owner)) s :=
      Safe.attempt idle claimed idle_stays @claimed_stays sleeps (fun s => once) valid start
    refine Safe.bind claim valid fun x t valid reached => ?_
    cases x with
    | error e => exact fun u rely valid => idle_stays rely reached
    | ok c =>
      change Safe T _ ((a.remember c).bind _) t
      unfold remember
      split
      · intro u rely valid x v answer
        obtain ⟨valid, done, kept⟩ := keeps valid (claimed_stays rely valid reached) answer
        exact ⟨valid, done, fun w rely valid => kept_stays rely valid kept⟩
      · rename_i plain
        have kept := unkept (Bool.eq_false_iff.2 plain) reached
        exact fun u rely valid => kept_stays rely valid kept
  · rw [allocate, if_pos kind]
    exact fun t rely valid => idle_stays rely start

/-- A block given back under a lock. -/
def giveBack (a : BlockAllocator) (c : RangeClaim) (g : Grant) : Program Unit :=
  Program.bind ((a.layout.rangeKeyFor c.pool c.range).elim (.pure ()) fun key =>
      discard (Program.store (.delete key))) fun _ =>
    (a.forget c).bind fun _ => discard (Program.store (.unlock g))

theorem release_eq (a : BlockAllocator) (c : RangeClaim) : a.release c =
    Program.ask (.store (.lock (a.layout.mutex .range c.pool))) fun x =>
      x.toOption.elim (a.forget c) (a.giveBack c) := by
  change Program.ask _ _ = Program.ask _ _
  congr 1
  funext x
  cases x with
  | error e => rfl
  | ok g =>
    change Program.bind _ _ = Program.bind _ _
    cases a.layout.rangeKeyFor c.pool c.range <;> rfl

end BlockAllocator

namespace Reconciler

/-- The claims among entries that the node itself owns. -/
def owned (c : Reconciler) (entries : List KeyValue) : List RangeClaim :=
  ((decodeClaims (RangeClaim.ofEntry c.layout) entries).partition (·.owner = c.identity)).1

def foreign (c : Reconciler) (entries : List KeyValue) : List RangeClaim :=
  ((decodeClaims (RangeClaim.ofEntry c.layout) entries).partition (·.owner = c.identity)).2

theorem mem_owned {c : Reconciler} {entries : List KeyValue} {claim : RangeClaim} :
    claim ∈ c.owned entries ↔
      claim ∈ decodeClaims (RangeClaim.ofEntry c.layout) entries ∧ claim.owner = c.identity := by
  simp [owned, List.partition_eq_filter_filter]

theorem mem_foreign {c : Reconciler} {entries : List KeyValue} {claim : RangeClaim} :
    claim ∈ c.foreign entries ↔
      claim ∈ decodeClaims (RangeClaim.ofEntry c.layout) entries ∧ claim.owner ≠ c.identity := by
  simp [foreign, List.partition_eq_filter_filter]

/-- The second half of a pass, once the owned claims are on file. -/
def publishAll (c : Reconciler) (pool : String) (entries : List KeyValue) (report : SyncReport) :
    Program (Except Failure SyncReport) :=
  .ask (.cache (.load pool)) (Program.onward fun ranges =>
    (ranges.foldlM (c.publish pool (c.owned entries) (c.foreign entries)) report :
      Operation SyncReport))

/-- A pass, from the claims that it finds. -/
def settle (c : Reconciler) (pool : String) (entries : List KeyValue) :
    Program (Except Failure SyncReport) :=
  .ask (.cache (.load pool)) (Program.onward fun onFile =>
    (c.adopt pool { pool } onFile (c.owned entries)).bind (c.publishAll pool entries))

theorem syncLocked_eq (c : Reconciler) (pool : String) :
    c.syncLocked pool = Program.ask (.store (.range (c.layout.claimStart .range pool)))
      (Program.onwardStored fun found => c.settle pool found.entries) := by
  change Program.ask _ _ = Program.ask _ _
  congr 1
  funext x
  cases x with
  | error e => rfl
  | ok found =>
    change Program.ask _ _ = Program.ask _ _
    congr 1
    funext x
    cases x with
    | error e => rfl
    | ok onFile =>
      change Program.bind (Program.bind _ _) _ = Program.bind _ _
      rw [Program.bind_assoc]
      congr 1
      funext report
      change Program.ask _ _ = Program.ask _ _
      congr 1
      funext x
      cases x <;> rfl

variable {σ : Type} {T : Terms σ} {pool : String}

theorem drop_safe {before after : σ → Prop}
    (before_stays : ∀ {s t}, T.rely s t → T.valid t → before s → before t)
    (after_stays : ∀ {s t}, T.rely s t → T.valid t → after s → after t)
    {r : AddressRange} (drops : ∀ {s x t}, T.valid s → before s →
      T.answers s (.cache (.delete pool r)) x t →
        T.valid t ∧ T.guarantee s (.cache (.delete pool r)) t ∧ after t) {s : σ} (start : before s) :
    Safe T (fun _ => after) (drop pool r) s := by
  intro t rely valid x u answer
  obtain ⟨valid, done, known⟩ := drops valid (before_stays rely valid start) answer
  refine ⟨valid, done, ?_⟩
  cases x with
  | ok removed => exact fun v rely valid => after_stays rely valid known
  | error e => exact fun v rely valid => after_stays rely valid known

/-- What is known with so many ranges yet to be taken off the file. -/
theorem dropAll_safe (known : List AddressRange → σ → Prop)
    (stays : ∀ {ranges s t}, T.rely s t → T.valid t → known ranges s → known ranges t)
    (drops : ∀ {r rest s x t}, T.valid s → known (r :: rest) s →
      T.answers s (.cache (.delete pool r)) x t →
        T.valid t ∧ T.guarantee s (.cache (.delete pool r)) t ∧ known rest t)
    {ranges : List AddressRange} {s : σ} (valid : T.valid s) (start : known ranges s) :
    Safe T (fun _ => known []) (dropAll pool ranges) s := by
  induction ranges generalizing s with
  | nil => exact fun t rely valid => stays rely valid start
  | cons r ranges ih =>
    have first : Safe T (fun _ => known ranges) (drop pool r) s := drop_safe stays stays drops start
    refine Safe.bind first valid fun went t valid known => ?_
    refine Safe.bind (ih valid known) valid fun others t valid known => ?_
    exact fun u rely valid => stays rely valid known

/-- How the owned claims are put on file one after the other. `known` tells what is known with so
much on file and so many claims to come, `clearing` what is known while ranges make way for a claim,
and `out` once the file has refused the claim all the same. -/
structure Adopting (T : Terms σ) (c : Reconciler) (pool : String) where
  known : List AddressRange → List RangeClaim → σ → Prop
  clearing : List AddressRange → RangeClaim → List RangeClaim → List AddressRange → σ → Prop
  out : List AddressRange → RangeClaim → List RangeClaim → σ → Prop
  known_stays : ∀ {onFile rest s t}, T.rely s t → T.valid t → known onFile rest s → known onFile rest t
  clearing_stays : ∀ {onFile claim rest left s t}, T.rely s t → T.valid t →
    clearing onFile claim rest left s → clearing onFile claim rest left t
  out_stays : ∀ {onFile claim rest s t}, T.rely s t → T.valid t →
    out onFile claim rest s → out onFile claim rest t
  kept : ∀ {onFile claim rest s}, claim.range ∈ onFile → known onFile (claim :: rest) s →
    known onFile rest s
  begins : ∀ {onFile claim rest s}, claim.range ∉ onFile → T.valid s →
    known onFile (claim :: rest) s →
      clearing onFile claim rest (onFile.filter (·.overlaps claim.range)) s
  drops : ∀ {onFile claim rest r left s x t}, T.valid s →
    clearing onFile claim rest (r :: left) s → T.answers s (.cache (.delete pool r)) x t →
      T.valid t ∧ T.guarantee s (.cache (.delete pool r)) t ∧ clearing onFile claim rest left t
  adds : ∀ {onFile claim rest s t}, T.valid s → clearing onFile claim rest [] s →
    T.answers s (.cache (.append pool claim.range)) (.ok ()) t →
      T.valid t ∧ T.guarantee s (.cache (.append pool claim.range)) t ∧
        known ((onFile.filter fun r => !r.overlaps claim.range) ++ [claim.range]) rest t
  refuses : ∀ {onFile claim rest e s t}, T.valid s → clearing onFile claim rest [] s →
    T.answers s (.cache (.append pool claim.range)) (.error e) t →
      T.valid t ∧ T.guarantee s (.cache (.append pool claim.range)) t ∧ out onFile claim rest t
  keyless : ∀ {onFile claim rest s}, c.layout.rangeKeyFor pool claim.range = none →
    out onFile claim rest s → known (onFile.filter fun r => !r.overlaps claim.range) rest s
  disowns : ∀ {onFile claim rest key s x t}, c.layout.rangeKeyFor pool claim.range = some key →
    T.valid s → out onFile claim rest s → T.answers s (.store (.delete key)) x t →
      T.valid t ∧ T.guarantee s (.store (.delete key)) t ∧
        known (onFile.filter fun r => !r.overlaps claim.range) rest t

theorem adopt_safe {c : Reconciler} (a : Adopting T c pool) {owned : List RangeClaim}
    {onFile : List AddressRange} (report : SyncReport) {s : σ} (valid : T.valid s)
    (start : a.known onFile owned s) :
    Safe T (fun _ t => ∃ onFile, a.known onFile [] t) (c.adopt pool report onFile owned) s := by
  induction owned generalizing onFile report s with
  | nil => exact fun t rely valid => ⟨onFile, a.known_stays rely valid start⟩
  | cons claim rest ih =>
    unfold adopt
    split
    · rename_i there
      exact ih _ valid (a.kept (List.contains_iff_mem.1 there) start)
    · rename_i absent
      have absent : claim.range ∉ onFile := fun mem => absent (List.contains_iff_mem.2 mem)
      have clear : Safe T (fun _ => a.clearing onFile claim rest [])
          (dropAll pool (onFile.filter (·.overlaps claim.range))) s :=
        dropAll_safe (a.clearing onFile claim rest) a.clearing_stays a.drops valid
          (a.begins absent valid start)
      refine Safe.bind clear valid fun gone t valid cleared => ?_
      intro u rely valid x v answer
      have cleared := a.clearing_stays rely valid cleared
      cases x with
      | ok done =>
        obtain ⟨valid, kept, known⟩ := a.adds valid cleared answer
        exact ⟨valid, kept, ih _ valid known⟩
      | error e =>
        obtain ⟨valid, kept, out⟩ := a.refuses valid cleared answer
        refine ⟨valid, kept, ?_⟩
        have disowned : Safe T
            (fun _ t => a.known (onFile.filter fun r => !r.overlaps claim.range) rest t)
            (c.disown pool claim.range) v := by
          unfold disown
          cases key : c.layout.rangeKeyFor pool claim.range with
          | none => exact fun w rely valid => a.known_stays rely valid (a.keyless key out)
          | some key' =>
            intro w rely valid y z answer
            obtain ⟨valid, kept, known⟩ := a.disowns key valid (a.out_stays rely valid out) answer
            exact ⟨valid, kept, fun _ rely valid => a.known_stays rely valid known⟩
        change Safe T _ ((c.disown pool claim.range).bind _) v
        exact Safe.bind disowned valid fun _ t valid known => ih _ valid known

theorem giveUp_safe {before after : σ → Prop} {r : AddressRange} (report : SyncReport)
    (before_stays : ∀ {s t}, T.rely s t → T.valid t → before s → before t)
    (after_stays : ∀ {s t}, T.rely s t → T.valid t → after s → after t)
    (drops : ∀ {s x t}, T.valid s → before s → T.answers s (.cache (.delete pool r)) x t →
      T.valid t ∧ T.guarantee s (.cache (.delete pool r)) t ∧ after t)
    {s : σ} (start : before s) (valid : T.valid s) :
    Safe T (Safe.Outcome (fun _ => after) after)
      (liftM (giveUp pool r report) : Operation SyncReport) s := by
  have told : (liftM (giveUp pool r report) : Operation SyncReport) = (drop pool r).bind fun went =>
      .pure (.ok (if went then { report with dropped := report.dropped + 1 } else report)) := by
    change Program.bind (Program.bind _ _) _ = _
    rw [Program.bind_assoc]
    rfl
  rw [told]
  refine Safe.bind (drop_safe before_stays after_stays drops start) valid fun went t valid known => ?_
  cases went <;> exact fun u rely valid => after_stays rely valid known

/-- One range on file. It is left alone, given up, or written to the store; a range whose key is
taken is given up. -/
theorem publish_safe {c : Reconciler} {owned foreign : List RangeClaim} (before after : σ → Prop)
    {r : AddressRange} (before_stays : ∀ {s t}, T.rely s t → T.valid t → before s → before t)
    (after_stays : ∀ {s t}, T.rely s t → T.valid t → after s → after t)
    (owns : ∀ {s}, (∃ claim ∈ owned, claim.range = r) → before s → after s)
    (drops : ∀ {s x t}, (∀ claim ∈ owned, claim.range ≠ r) → T.valid s → before s →
      T.answers s (.cache (.delete pool r)) x t →
        T.valid t ∧ T.guarantee s (.cache (.delete pool r)) t ∧ after t)
    (creates : ∀ {key s x t}, (∀ claim ∈ owned, claim.range ≠ r) →
      (∀ claim ∈ foreign, claim.range.overlaps r = false) →
      c.layout.rangeKeyFor pool r = some key → T.valid s → before s →
      T.answers s (.store (.create key (ClaimRecord.ofOwner c.identity).encode)) x t →
        T.valid t ∧
        T.guarantee s (.store (.create key (ClaimRecord.ofOwner c.identity).encode)) t ∧
        (x = .ok .alreadyExists → before t) ∧ (x ≠ .ok .alreadyExists → after t))
    {report : SyncReport} {s : σ} (start : before s) (valid : T.valid s) :
    Safe T (Safe.Outcome (fun _ => after) after) (c.publish pool owned foreign report r) s := by
  have drop (absent : ∀ claim ∈ owned, claim.range ≠ r) {s : σ} (valid : T.valid s) (start : before s) :=
    giveUp_safe report before_stays after_stays (drops absent) start valid
  unfold publish
  split
  · rename_i there
    obtain ⟨claim, mem, same⟩ := List.any_eq_true.1 there
    have known := owns ⟨claim, mem, of_decide_eq_true same⟩ start
    exact fun t rely valid => after_stays rely valid known
  · rename_i absent
    have absent : ∀ claim ∈ owned, claim.range ≠ r := fun claim mem same =>
      absent (List.any_eq_true.2 ⟨claim, mem, decide_eq_true same⟩)
    split
    · exact drop absent valid start
    · rename_i apart
      have apart : ∀ claim ∈ foreign, claim.range.overlaps r = false := fun claim mem =>
        Bool.eq_false_iff.2 fun shared => apart (List.any_eq_true.2 ⟨claim, mem, shared⟩)
      split
      · exact drop absent valid start
      · rename_i key found
        rw [Operation.store_bind]
        intro t rely valid x u answer
        obtain ⟨valid, done, taken, free⟩ :=
          creates absent apart found valid (before_stays rely valid start) answer
        refine ⟨valid, done, ?_⟩
        cases x with
        | error e => exact fun v rely valid => after_stays rely valid (free nofun)
        | ok creation =>
          cases creation with
          | created revision => exact fun v rely valid => after_stays rely valid (free nofun)
          | alreadyExists => exact drop absent valid (taken rfl)

theorem publishEach_safe {c : Reconciler} {owned foreign : List RangeClaim}
    (known : List AddressRange → σ → Prop) {post : σ → Prop}
    (stays : ∀ {rest s t}, T.rely s t → T.valid t → known rest s → known rest t)
    (each : ∀ {r rest s} (report : SyncReport), T.valid s → known (r :: rest) s →
      Safe T (Safe.Outcome (fun _ => known rest) (known rest)) (c.publish pool owned foreign report r) s)
    (ends : ∀ {rest s}, known rest s → post s) {ranges : List AddressRange} {report : SyncReport} {s : σ}
    (valid : T.valid s) (start : known ranges s) : Safe T (Safe.Outcome (fun _ => post) post)
      (ranges.foldlM (c.publish pool owned foreign) report : Operation SyncReport) s := by
  induction ranges generalizing report s with
  | nil => exact fun t rely valid => ends (stays rely valid start)
  | cons r rest ih =>
    rw [List.foldlM_cons]
    refine Safe.tryThen (each report valid start) valid (fun report t valid known => ih valid known)
      fun e t valid known => ?_
    exact fun u rely valid => ends (stays rely valid known)

/-- A pass under the lock, from what is known `within` it. -/
theorem syncLocked_safe {c : Reconciler} (within post : σ → Prop) (found : List KeyValue → σ → Prop)
    (listed : List KeyValue → List AddressRange → σ → Prop)
    (adopting : List KeyValue → Adopting T c pool)
    (within_stays : ∀ {s t}, T.rely s t → T.valid t → within s → within t)
    (found_stays : ∀ {entries s t}, T.rely s t → T.valid t → found entries s → found entries t)
    (listed_stays : ∀ {entries rest s t}, T.rely s t → T.valid t →
      listed entries rest s → listed entries rest t)
    (post_stays : ∀ {s t}, T.rely s t → T.valid t → post s → post t)
    (reads : ∀ {s x t}, T.valid s → within s →
      T.answers s (.store (.range (c.layout.claimStart .range pool))) x t → T.valid t ∧
        T.guarantee s (.store (.range (c.layout.claimStart .range pool))) t ∧
        Safe.Outcome (fun snapshot => found snapshot.entries) post x t)
    (loads : ∀ {entries s x t}, T.valid s → found entries s →
      T.answers s (.cache (.load pool)) x t →
        T.valid t ∧ T.guarantee s (.cache (.load pool)) t ∧
        Safe.Outcome (fun onFile => (adopting entries).known onFile (c.owned entries)) post x t)
    (reloads : ∀ {entries onFile s x t}, T.valid s → (adopting entries).known onFile [] s →
      T.answers s (.cache (.load pool)) x t →
        T.valid t ∧ T.guarantee s (.cache (.load pool)) t ∧ Safe.Outcome (listed entries) post x t)
    (publishes : ∀ {entries r rest s} (report : SyncReport), T.valid s → listed entries (r :: rest) s →
      Safe T (Safe.Outcome (fun _ => listed entries rest) (listed entries rest))
        (c.publish pool (c.owned entries) (c.foreign entries) report r) s)
    (ends : ∀ {entries rest s}, listed entries rest s → post s) {s : σ} (start : within s) :
    Safe T (fun _ => post) (c.syncLocked pool) s := by
  rw [syncLocked_eq]
  intro t rely valid x u answer
  obtain ⟨valid, done, read⟩ := reads valid (within_stays rely valid start) answer
  refine ⟨valid, done, ?_⟩
  cases x with
  | error e => exact fun v rely valid => post_stays rely valid read
  | ok snapshot =>
    intro v rely valid x w answer
    obtain ⟨valid, done, loaded⟩ := loads valid (found_stays rely valid read) answer
    refine ⟨valid, done, ?_⟩
    cases x with
    | error e => exact fun u rely valid => post_stays rely valid loaded
    | ok onFile =>
      have adopted := adopt_safe (adopting snapshot.entries) { pool } valid loaded
      refine Safe.bind adopted valid fun report s valid reached => ?_
      obtain ⟨onFile, known⟩ := reached
      intro t rely valid x u answer
      obtain ⟨valid, done, reloaded⟩ :=
        reloads valid ((adopting snapshot.entries).known_stays rely valid known) answer
      refine ⟨valid, done, ?_⟩
      cases x with
      | error e => exact fun u rely valid => post_stays rely valid reloaded
      | ok ranges =>
        have each : Safe T (Safe.Outcome (fun _ => post) post)
            (ranges.foldlM (c.publish pool (c.owned snapshot.entries) (c.foreign snapshot.entries))
              report : Operation SyncReport) u :=
          publishEach_safe (listed snapshot.entries) listed_stays publishes ends valid reloaded
        exact each.weaken fun x t _ reached => by cases x <;> exact reached

end Reconciler

/-- A call on the pool. -/
inductive BlockCall
  | allocate (retry : Retry) (cached : Bool) (pool : Pool) (owner : String)
  | release (cached : Bool) (claim : RangeClaim)
  | sync (identity : String)
  | sweep (identity : String)
deriving DecidableEq

namespace BlockCall

/-- What a call does; what it comes to is the block handed out, if it is to hand out one. -/
def program (l : KeyLayout) (name : String) : BlockCall → Program (Option RangeClaim)
  | .allocate retry cached pool owner =>
    (BlockAllocator.allocate ⟨l, retry, cached⟩ pool owner).outcome.bind fun x => .pure x.toOption
  | .release cached claim =>
    (BlockAllocator.release { layout := l, cached } claim).bind fun _ => .pure none
  | .sync identity => (Reconciler.sync ⟨l, identity⟩ name).outcome.bind fun _ => .pure none
  | .sweep identity => (NetPool.sweep l identity).outcome.bind fun _ => .pure none

def On (name : String) : BlockCall → Prop
  | .allocate _ _ pool _ => pool.name = name
  | .release _ claim => claim.pool = name
  | .sync _ => True
  | .sweep _ => True

end BlockCall

def BlockPool.stage {ν : Type} [DecidableEq ν] (p : BlockPool ν) (calm : Prop)
    (allowed : BlockCall → Prop) :
    Stage (Cluster ν) (ν × Nat) BlockCall (Option RangeClaim) where
  program := BlockCall.program p.layout p.name
  allowed _ := allowed
  answers := Cluster.Answers p calm
  moves _ _ := False

/-- What holds when nothing is under way. -/
structure BlockPool.Ready {ν : Type} (p : BlockPool ν) (s : Cluster ν) : Prop where
  ascending : Store.Ascending s.store.entries
  available : s.store.available = true
  working : s.store.failingCreations = 0
  rooted : ∀ n, (s.files n).Rooted
  idle : ∀ i, s.held i = []

theorem BlockPool.Ready.steady {ν : Type} {p : BlockPool ν} {s : Cluster ν} (ready : p.Ready s) :
    Cluster.Steady p s := by
  refine ⟨ready.ascending, ready.available, ready.working, ready.rooted, fun i g mem => ?_, ?_⟩
  · rw [ready.idle i] at mem
    cases mem
  · rintro i j ⟨g, mem, _⟩
    rw [ready.idle i] at mem
    cases mem

/-! Two nodes with nothing on file, on which calls can be played. -/

namespace Cluster

def fresh : Cluster Bool where
  store := .empty 100
  files _ := .empty []
  held _ := []
  loaded _ := false
  doomed _ := none
  refused := []

def pair : BlockPool Bool where
  layout := .standard
  name := "blue"
  cache n := ⟨if n then "/b" else "/a"⟩

theorem fresh_ready : pair.Ready fresh := by
  refine ⟨.nil, rfl, rfl, fun _ p home => ?_, fun _ => rfl⟩
  cases List.prefix_nil.1 home
  rfl

theorem kept_fresh (n : Bool) : fresh.kept pair n = [] := by
  cases n <;> exact RangeCache.kept_of_load (by decide +kernel)

/-- The 64 first addresses of ten, in blocks of 16. -/
def bluePool : Pool := .covering "blue" .range (.around 0x0A000000 26 (by decide))

/-- The claim of a block of that pool. -/
def claimBlock (cached : Bool) (owner : String) : BlockCall :=
  .allocate ⟨3, 100⟩ cached bluePool owner

def firstBlock : RangeClaim := ⟨"blue", .span 0x0A000000 0x0A00000F, "left"⟩

abbrev PairScene := Scene (Cluster Bool) (Bool × Nat) BlockCall (Option RangeClaim)

def played (allowed : BlockCall → Prop) (turns : List (Scene.Turn (Bool × Nat) BlockCall)) :
    Option PairScene :=
  (Scene.opening fresh).play (pair.stage False allowed) (reply pair) turns

theorem played_reached {allowed : BlockCall → Prop} {turns : List (Scene.Turn (Bool × Nat) BlockCall)}
    {c : PairScene} (run : played allowed turns = some c)
    (all : ∀ i k, .call i k ∈ turns → allowed k) :
    Scene.Reached (pair.stage False allowed) fresh c :=
  Scene.play_reached (fun _ answered => reply_answers answered False.elim) all .opening run

end Cluster

end NetPool
