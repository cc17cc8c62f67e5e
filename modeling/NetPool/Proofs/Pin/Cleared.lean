import NetPool.Proofs.Interference
import NetPool.Proofs.Pin.Earliest
import NetPool.Proofs.Running
import NetPool.Proofs.Spelling
import NetPool.Proofs.Store.Change

/-! Addresses released and collected on a store that nobody else uses. The entries that go are those
under the keys built for the claims that are chosen. -/

namespace NetPool

/-- A store that answers at once, beside workloads that still exist or do not. -/
def Store.beside (live : String → Bool) (s : Store) : (r : Request) → Option (r.Answer × Store)
  | .isLive workload => some (live workload, s)
  | r => s.reply r

/-- On a store that is available the operation takes away the entries under certain keys and no others. Its
result is marked if there were any, or if it was `before`. -/
def Clears (live : String → Bool) {β : Type} (marked : β → Prop) (gone : String → Prop) (before : Prop)
    (o : Operation β) : Prop :=
  ∀ s : Store, s.available = true → ∃ b t, o.outcome.run (Store.beside live) s = some (.ok b, t) ∧
    t.available = true ∧ (∀ e, e ∈ t.entries ↔ e ∈ s.entries ∧ ¬ gone e.key) ∧
    (marked b ↔ before ∨ ∃ e ∈ s.entries, gone e.key)

namespace Clears

variable {live : String → Bool} {β : Type} {marked : β → Prop} {gone more : String → Prop} {before : Prop}

theorem none (never : ∀ key, ¬ gone key) (b : β) : Clears live marked gone (marked b) (pure b) := by
  refine fun s available => ⟨b, s, rfl, available, fun e => ?_, ?_⟩ <;> simp [never]

theorem andThen {o : Operation β} {f : β → Operation β} (first : Clears live marked gone before o)
    (second : ∀ b, Clears live marked more (marked b) (f b)) :
    Clears live marked (fun key => gone key ∨ more key) before (o >>= f) := by
  intro s available
  obtain ⟨b, t, run, available, left, mark⟩ := first s available
  obtain ⟨c, u, rest, available, last, again⟩ := second b t available
  refine ⟨c, u, ?_, available, fun e => ?_, ?_⟩
  · rw [Operation.bind_eq]
    exact (Program.run_bind_of run (Program.onward f)).trans rest
  · rw [last, left, not_or, and_assoc]
  · rw [again, mark]
    constructor
    · rintro ((marked | ⟨e, mem, gone⟩) | ⟨e, mem, more⟩)
      · exact .inl marked
      · exact .inr ⟨e, mem, .inl gone⟩
      · exact .inr ⟨e, ((left e).1 mem).1, .inr more⟩
    · rintro (marked | ⟨e, mem, which⟩)
      · exact .inl (.inl marked)
      · by_cases first : gone e.key
        · exact .inl (.inr ⟨e, mem, first⟩)
        · exact .inr ⟨e, (left e).2 ⟨mem, first⟩, which.resolve_left first⟩

theorem foldlM {γ : Type} {f : β → γ → Operation β} {gone : γ → String → Prop} {cs : List γ}
    (each : ∀ c ∈ cs, ∀ b, Clears live marked (gone c) (marked b) (f b c)) (b : β) :
    Clears live marked (fun key => ∃ c ∈ cs, gone c key) (marked b) (cs.foldlM f b) := by
  induction cs generalizing b with
  | nil => exact none (by simp) b
  | cons c cs ih =>
    have rest := ih fun d mem => each d (List.mem_cons_of_mem c mem)
    simpa only [List.foldlM_cons, List.exists_mem_cons_iff] using
      (each c List.mem_cons_self b).andThen rest

theorem delete {key : String} {f : Bool → Operation β}
    (returns : ∀ gone, ∃ b, f gone = pure b ∧ (marked b ↔ before ∨ gone = true)) :
    Clears live marked (· = key) before (Operation.store (.delete key) >>= f) := by
  intro s available
  obtain ⟨gone, t, served, available, found, left⟩ := Store.delete_of_available available key
  obtain ⟨b, same, mark⟩ := returns gone
  refine ⟨b, t, ?_, available, left, mark.trans (or_congr_right found)⟩
  rw [Operation.outcome, Operation.store_bind]
  simp only [Program.run, Store.beside, Store.reply, Store.serve, served]
  change (f gone).outcome.run (Store.beside live) t = _
  rw [same]
  rfl

theorem ifLive {workload : String} {next : Bool → Operation β}
    (rest : Clears live marked gone before (next (live workload))) :
    Clears live marked gone before (.ask (.isLive workload) next : Program _) := rest

/-- What is done for a claim only if it is chosen. -/
theorem chosen {is : Prop} {key : String} {o : Operation β} (clears : is → Clears live marked (· = key) before o)
    (skips : ¬ is → Clears live marked (fun _ => False) before o) :
    Clears live marked (fun k => is ∧ k = key) before o := by
  by_cases which : is
  · simpa only [which, true_and] using clears which
  · simpa only [which, false_and] using skips which

end Clears

namespace PinAllocator

variable {a : PinAllocator} {p : Pool} {live : String → Bool} {chosen : String → Prop}

/-- The key is built for an address that is claimed, among these entries, for a chosen workload. -/
def ClaimedBy (l : KeyLayout) (pool : String) (chosen : String → Prop) (entries : List KeyValue)
    (key : String) : Prop :=
  ∃ d ∈ entries, ∃ c, FixedClaim.ofEntry l d = .ok c ∧ c.pool = pool ∧ chosen c.workload ∧
    key = l.fixedKey c.pool c.address

theorem below_iff {l : KeyLayout} {d : KeyValue} {c : FixedClaim} (read : FixedClaim.ofEntry l d = .ok c)
    (pool : String) : startsWith d.key (l.claimStart .fixed pool) = true ↔ c.pool = pool := by
  obtain ⟨named, t, spelled, whole⟩ := KeyLayout.parseFixedKey_iff.1 (FixedClaim.ofEntry_eq_ok.1 read).1
  have parts := KeyLayout.claimParts?_keyOf l .fixed named spelled
  rw [← whole] at parts
  constructor
  · intro below
    exact String.toList_inj.1 (KeyLayout.claimParts?_pool below parts).1
  · rintro rfl
    rw [startsWith_iff, whole, KeyLayout.keyOf_toList, KeyLayout.claimStart_toList, KeyLayout.kindStart_toList]
    exact ⟨t, by simp⟩

theorem claimedBy_iff {l : KeyLayout} {pool key : String} {entries : List KeyValue} :
    ClaimedBy l pool chosen entries key ↔
      ∃ c ∈ decodeClaims (FixedClaim.ofEntry l) (entries.filter (startsWith ·.key (l.claimStart .fixed pool))),
        chosen c.workload ∧ key = l.fixedKey c.pool c.address := by
  simp only [mem_decodeClaims, List.mem_filter]
  constructor
  · rintro ⟨d, mem, c, read, own, is, slot⟩
    exact ⟨c, ⟨d, ⟨mem, (below_iff read pool).2 own⟩, read⟩, is, slot⟩
  · rintro ⟨c, ⟨d, ⟨mem, below⟩, read⟩, is, slot⟩
    exact ⟨d, mem, c, read, (below_iff read pool).1 below, is, slot⟩

/-- What an operation on the claims of a pool has done when it has come to an end: the entries that stood
under a key built for a chosen claim are gone, and no others. -/
structure Cleared (l : KeyLayout) (pool : String) (chosen : String → Prop) (s : Store) (any : Prop)
    (t : Store) : Prop where
  left : ∀ e, e ∈ t.entries ↔ e ∈ s.entries ∧ ¬ ClaimedBy l pool chosen s.entries e.key
  told : any ↔ ∃ e ∈ s.entries, ClaimedBy l pool chosen s.entries e.key

theorem each_clears {β : Type} (marked : β → Prop) {f : β → FixedClaim → Operation β}
    (each : ∀ c b, Clears live marked (fun key => chosen c.workload ∧ key = a.layout.fixedKey c.pool c.address)
      (marked b) (f b c)) {b : β} (plain : ¬ marked b) {s : Store} (asc : Store.Ascending s.entries)
    (available : s.available = true) :
    ∃ c t, (a.claims p.name >>= fun claims => claims.foldlM f b : Operation β).outcome.run
        (Store.beside live) s = some (.ok c, t) ∧
      Cleared a.layout p.name chosen s (marked c) t := by
  obtain ⟨c, t, run, _, left, told⟩ := Clears.foldlM (fun c _ => each c) b s available
  refine ⟨c, t, ?_, fun e => ?_, ?_⟩
  · rw [Operation.outcome, claims, Operation.readClaims_bind]
    simp only [Program.run, Store.beside, Store.reply, Store.serve, Store.range_of_available asc available]
    exact run
  · rw [left, claimedBy_iff]
  · rw [told, or_iff_right plain]
    simp only [claimedBy_iff]

theorem release_clears {workload : String} {s : Store} (asc : Store.Ascending s.entries)
    (available : s.available = true) :
    ∃ released t, (a.release p workload).outcome.run (Store.beside live) s = some (.ok released, t) ∧
      Cleared a.layout p.name (· = workload) s (released = true) t := by
  refine each_clears (· = true) (fun c released => .chosen (fun same => ?_) fun other => ?_) Bool.false_ne_true
    asc available
  · rw [if_pos same]
    exact .delete fun gone => ⟨_, rfl, by rw [Bool.or_eq_true, or_comm]⟩
  · rw [if_neg other]
    exact .none (fun _ => id) released

theorem collect_clears {s : Store} (asc : Store.Ascending s.entries) (available : s.available = true) :
    ∃ n t, (a.collect p).outcome.run (Store.beside live) s = some (.ok n, t) ∧
      Cleared a.layout p.name (live · = false) s (0 < n) t := by
  refine each_clears (0 < ·) (fun c n => .chosen (fun departed => .ifLive ?_) fun present => .ifLive ?_)
    (Nat.lt_irrefl 0) asc available
  · rw [departed]
    refine .delete fun gone => ?_
    cases gone with
    | true => exact ⟨n + 1, rfl, by simp⟩
    | false => exact ⟨n, rfl, by simp⟩
  · rw [Bool.not_eq_false] at present
    rw [present]
    exact .none (fun _ => id) n

end PinAllocator

end NetPool
