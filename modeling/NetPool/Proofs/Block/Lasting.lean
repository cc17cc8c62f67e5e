import NetPool.Proofs.Block.Adoption

/-! Blocks that are handed out and last, and the one way in which they do not. -/

namespace NetPool.BlockPool

open Cluster

variable {ν : Type} [DecidableEq ν] {p : BlockPool ν} {calm : Prop} {s : Cluster ν}

/-- Nobody has loaded a file or been refused a range. -/
structure Rested (p : BlockPool ν) (s : Cluster ν) : Prop extends p.Ready s where
  loaded : ∀ i, s.loaded i = false
  doomed : ∀ i, s.doomed i = none
  refused : s.refused = []

theorem Rested.right {c : Scene (Cluster ν) (ν × Nat) BlockCall (Option RangeClaim)}
    (rested : p.Rested s) (files : calm → ∀ n, Apart (s.kept p n) ∧ s.Readable p n)
    (reached : Scene.Reached (p.stage calm (·.Taking p.name)) s c) : (p.care calm).Right c := by
  have tended : Tended p calm s := by
    refine ⟨rested.steady, fun i loaded => ?_, fun calmly => ⟨rested.refused, files calmly⟩⟩
    rw [rested.loaded i] at loaded
    cases loaded
  exact Agreement.reached_right care_kept tended
    (fun i => ⟨rested.idle i, rested.loaded i, rested.doomed i⟩) reached

/-- A block that was handed out stays in the store under its key unless a pass is refused its range.
Whoever is refused a range deletes its key with his next request. Nobody is refused anything if the
files are apart at first and nothing is added to a file between the two loads of a pass. -/
theorem handed_out_lasts {c : Scene (Cluster ν) (ν × Nat) BlockCall (Option RangeClaim)}
    (rested : p.Rested s) (files : calm → ∀ n, Apart (s.kept p n) ∧ s.Readable p n)
    (reached : Scene.Reached (p.stage calm (·.Taking p.name)) s c) :
    (∀ i retry cached pool owner claim,
      (i, .allocate retry cached pool owner, some claim) ∈ c.returned → claim.owner = owner ∧
        (c.shared.Entered (p.layout.rangeKey p.name claim.range.start pool.blockExp)
          (ClaimRecord.ofOwner owner).encode ∨ claim.range ∈ c.shared.refused)) ∧
    (∀ i range call r next x t, c.shared.doomed i = some range →
      c.running i = some (call, .ask r next) → Answers p calm i c.shared r x t →
        ∃ key, p.layout.rangeKeyFor p.name range = some key ∧ r = .store (.delete key) ∧
          ∀ e ∈ t.store.entries, e.key ≠ key) ∧
    (calm → c.shared.refused = []) := by
  have right := rested.right files reached
  have after : Tended p calm c.shared := right.valid
  refine ⟨fun i retry cached pool owner claim mem => ?_,
    fun i range call r next x t doomed waits answer => ?_, fun calmly => (after.calmly calmly).1⟩
  · have handed : p.HandedOut pool owner claim c.shared := right.returned i _ _ mem
    exact ⟨handed.whose, handed.refused⟩
  · obtain ⟨key, found, rfl⟩ := (right.does waits answer).gives range doomed
    refine ⟨key, found, rfl, fun e mem => ?_⟩
    obtain ⟨_, rfl⟩ := answer
    exact Store.ne_of_mem_delete after.steady.available mem

/-- As `reply`, but a caller waits with his file while somebody else holds the lock of the pool. -/
def calmReply (p : BlockPool ν) (i : ν × Nat) (s : Cluster ν) :
    (r : Request) → Option (r.Answer × Cluster ν)
  | .cache r =>
    if s.store.isLocked p.lock = false ∨ ∃ g ∈ s.held i, g.name = p.lock then reply p i s (.cache r)
    else none
  | r => reply p i s r

theorem calmReply_answers (tended : Tended p calm s) {i : ν × Nat} {t : Cluster ν} {r : Request}
    {x : r.Answer} (answered : calmReply p i s r = some (x, t)) : Answers p calm i s r x t := by
  cases r with
  | cache r =>
    rw [calmReply] at answered
    split at answered
    · rename_i alone
      exact reply_answers answered fun _ q _ => tended.undisturbed alone q
    · cases answered
  | store | chore | now | instant | sleep | pick | isLive | apply =>
    exact reply_answers answered fun _ q same => by cases same

theorem fresh_rested : pair.Rested fresh := ⟨fresh_ready, fun _ => rfl, fun _ => rfl, rfl⟩

theorem fresh_files (n : Bool) : Apart (fresh.kept pair n) ∧ fresh.Readable pair n := by
  rw [kept_fresh]
  refine ⟨.nil, fun ranges loaded => ?_⟩
  have none : ((pair.cache n).load (fresh.files n) pair.name).toOption = some [] := by
    cases n <;> decide +kernel
  rw [loaded] at none
  exact (Option.some.inj none).trans (kept_fresh n).symm

/-- A caller claims a block, and a pass of his node that waited for the lock puts it on file. What the caller
then adds himself is there already. -/
theorem pass_before_append : ∃ c, Scene.Reached (pair.stage True (·.Taking "blue")) fresh c ∧
    c.returned = [((false, 0), claimBlock true "left", some firstBlock),
      ((false, 1), .sync "left", none)] := by
  have run : (((Scene.opening fresh).play (pair.stage True (·.Taking "blue")) (calmReply pair)
      [.call (false, 0) (claimBlock true "left"), .answer (false, 0), .call (false, 1) (.sync "left"),
        .answer (false, 0), .answer (false, 0), .answer (false, 0), .answer (false, 1),
        .answer (false, 1), .answer (false, 1), .answer (false, 1), .answer (false, 1),
        .answer (false, 1), .finish (false, 1), .answer (false, 0), .finish (false, 0)]).map
        (·.returned)) = some [((false, 0), claimBlock true "left", some firstBlock),
          ((false, 1), .sync "left", none)] := by decide +kernel
  obtain ⟨c, played, returned⟩ := Option.map_eq_some_iff.1 run
  refine ⟨c, Scene.play_reached (fun reached => ?_) (Scene.forall_calls ?_) .opening played, returned⟩
  · exact calmReply_answers (fresh_rested.right (fun _ => fresh_files) reached).valid
  · exact List.forall_mem_cons.2 ⟨rfl, List.forall_mem_singleton.2 trivial⟩

/-- A pass has found the claim and loaded the empty file before the block is added to it, and is refused the
range. -/
theorem pass_after_append : ∃ c k r next x t, Scene.Reached (pair.stage False (·.Taking "blue")) fresh c ∧
    c.returned = [((false, 0), claimBlock true "left", some firstBlock)] ∧
    c.shared.doomed (false, 1) = some firstBlock.range ∧
    c.running (false, 1) = some (k, .ask r next) ∧ Answers pair False (false, 1) c.shared r x t ∧
    t.store.entries = [] := by
  have run : ((played (·.Taking "blue") [.call (false, 0) (claimBlock true "left"), .answer (false, 0),
      .answer (false, 0), .answer (false, 0), .answer (false, 0), .call (false, 1) (.sync "left"),
      .answer (false, 1), .answer (false, 1), .answer (false, 1), .answer (false, 0),
      .finish (false, 0), .answer (false, 1)]).any fun c =>
        (c.turned (pair.stage False (·.Taking "blue")) (reply pair) (.answer (false, 1))).any fun d =>
          c.returned = [((false, 0), claimBlock true "left", some firstBlock)] ∧
            c.shared.doomed (false, 1) = some firstBlock.range ∧ d.shared.store.entries = []) =
      true := by decide +kernel
  simp only [Option.any_eq_true, decide_eq_true_eq] at run
  obtain ⟨c, played, d, turned, returned, doomed, entries⟩ := run
  obtain ⟨k, r, next, x, waits, answered⟩ := Scene.turned_answer turned
  have reached := played_reached played (Scene.forall_calls
    (List.forall_mem_cons.2 ⟨rfl, List.forall_mem_singleton.2 trivial⟩))
  exact ⟨c, k, r, next, x, d.shared, reached, returned, doomed, waits,
    reply_answers answered False.elim, entries⟩

/-- A block lasts through a pass that comes between its claim and its way to the file. A pass that is refused
the range is about to delete the claim. -/
theorem one_block_lasts : pair.Rested fresh ∧
    (True → ∀ n, Apart (fresh.kept pair n) ∧ fresh.Readable pair n) ∧
    (∃ c, Scene.Reached (pair.stage True (·.Taking "blue")) fresh c ∧
      c.returned = [((false, 0), claimBlock true "left", some firstBlock),
        ((false, 1), .sync "left", none)] ∧
      (c.shared.Entered (pair.layout.rangeKey "blue" firstBlock.range.start bluePool.blockExp)
        (ClaimRecord.ofOwner "left").encode ∨ firstBlock.range ∈ c.shared.refused) ∧
      c.shared.refused = []) ∧
    ∃ c k r next, Scene.Reached (pair.stage False (·.Taking "blue")) fresh c ∧
      c.shared.doomed (false, 1) = some firstBlock.range ∧
      c.running (false, 1) = some (k, .ask r next) ∧
      r = .store (.delete (pair.layout.rangeKey "blue" firstBlock.range.start bluePool.blockExp)) := by
  refine ⟨fresh_rested, fun _ => fresh_files, ?_, ?_⟩
  · obtain ⟨c, reached, returned⟩ := pass_before_append
    obtain ⟨lasts, _, calmly⟩ := handed_out_lasts fresh_rested (fun _ => fresh_files) reached
    refine ⟨c, reached, returned, ?_, calmly trivial⟩
    have mem : ((false, 0), BlockCall.allocate ⟨3, 100⟩ true bluePool "left", some firstBlock) ∈
        c.returned := returned ▸ List.mem_cons_self
    exact (lasts _ _ _ _ _ _ mem).2
  · obtain ⟨c, k, r, next, x, t, reached, _, doomed, waits, answer, _⟩ := pass_after_append
    obtain ⟨_, gives, _⟩ := handed_out_lasts fresh_rested False.elim reached
    obtain ⟨key, found, asked, _⟩ := gives _ _ _ _ _ _ _ doomed waits answer
    have same : pair.layout.rangeKeyFor "blue" firstBlock.range =
        some (pair.layout.rangeKey "blue" firstBlock.range.start bluePool.blockExp) := by decide +kernel
    cases same.symm.trans found
    exact ⟨c, k, r, next, reached, doomed, waits, asked⟩

/-- A block that is lost although no file held anything: a pass has found the claim and loaded the empty
file, the block is added to the file, and the pass cannot add it once more and gives the claim up. -/
theorem handed_out_lost : ∃ c, Scene.Reached (pair.stage False (·.Taking "blue")) fresh c ∧
    (∀ n, fresh.kept pair n = []) ∧
    c.returned = [((false, 0), claimBlock true "left", some firstBlock)] ∧
    c.shared.store.entries = [] := by
  obtain ⟨c, _, _, _, _, t, reached, returned, _, waits, answer, entries⟩ := pass_after_append
  exact ⟨_, reached.step (.answered c waits answer), kept_fresh, returned, entries⟩

end NetPool.BlockPool
