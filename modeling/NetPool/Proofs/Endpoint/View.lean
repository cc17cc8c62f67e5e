import NetPool.Endpoint.Peers
import NetPool.Proofs.Running
import NetPool.Proofs.Store.Order

/-! What a view knows. Each update changes it as it says, whatever becomes of the changes that are handed
over. -/

namespace NetPool.PeerView

variable {v w : PeerView} {known : List (String × Endpoint)} {key k : String} {p : Endpoint}

/-- Ascending by key, each key once. -/
def Ascending (known : List (String × Endpoint)) : Prop := known.Pairwise (·.1 < ·.1)

theorem find?_place (key : String) (p : Endpoint) (known : List (String × Endpoint)) (k : String) :
    (place key p known).find? (·.1 = k) = if k = key then some (key, p) else known.find? (·.1 = k) := by
  have new (rest : List (String × Endpoint)) : ((key, p) :: rest).find? (·.1 = k) =
      if k = key then some (key, p) else rest.find? (·.1 = k) := by
    by_cases same : k = key
    · rw [if_pos same, List.find?_cons_of_pos (by simp [same])]
    · rw [if_neg same, List.find?_cons_of_neg (by simpa using Ne.symm same)]
  induction known with
  | nil => exact new []
  | cons a rest ih =>
    unfold place
    split
    · rename_i less
      by_cases here : a.1 = k
      · have other : k ≠ key := by
          rintro rfl
          exact String.lt_irrefl a.1 (here.symm ▸ less)
        rw [List.find?_cons_of_pos (by simpa using here), if_neg other,
          List.find?_cons_of_pos (by simpa using here)]
      · rw [List.find?_cons_of_neg (by simpa using here), ih, List.find?_cons_of_neg (by simpa using here)]
    · split
      · rename_i same
        rw [new]
        split
        · rfl
        · rename_i other
          rw [List.find?_cons_of_neg (by simpa [same] using Ne.symm other)]
      · exact new _

theorem mem_of_mem_place {a : String × Endpoint} (mem : a ∈ place key p known) :
    a = (key, p) ∨ a ∈ known := by
  induction known with
  | nil => exact .inl (List.mem_singleton.1 mem)
  | cons b rest ih =>
    unfold place at mem
    split at mem
    · rcases List.mem_cons.1 mem with rfl | mem
      · exact .inr List.mem_cons_self
      · exact (ih mem).imp_right (List.mem_cons_of_mem b)
    · split at mem
      · exact (List.mem_cons.1 mem).imp_right (List.mem_cons_of_mem b)
      · exact List.mem_cons.1 mem

theorem place_ascending (asc : Ascending known) : Ascending (place key p known) := by
  induction known with
  | nil => exact List.pairwise_singleton _ _
  | cons b rest ih =>
    obtain ⟨first, others⟩ := List.pairwise_cons.1 asc
    unfold place
    split
    · rename_i less
      refine List.pairwise_cons.2 ⟨fun a mem => ?_, ih others⟩
      rcases mem_of_mem_place mem with rfl | mem
      · exact less
      · exact first a mem
    · split
      · rename_i same
        exact List.pairwise_cons.2 ⟨fun a mem => same ▸ first a mem, others⟩
      · rename_i notLess other
        have less : key < b.1 := by
          apply Decidable.byContradiction
          intro h
          exact other (String.le_antisymm h notLess)
        refine List.pairwise_cons.2 ⟨fun a mem => ?_, asc⟩
        rcases List.mem_cons.1 mem with rfl | mem
        · exact less
        · exact String.lt_trans less (first a mem)

theorem mem_iff_find? (asc : Ascending known) :
    (key, p) ∈ known ↔ (known.find? (·.1 = key)).map (·.2) = some p := by
  induction known with
  | nil => simp
  | cons a rest ih =>
    obtain ⟨first, others⟩ := List.pairwise_cons.1 asc
    by_cases here : a.1 = key
    · subst here
      rw [List.find?_cons_of_pos (by simp), Option.map_some, List.mem_cons, Option.some.injEq]
      constructor
      · rintro (same | later)
        · exact (congrArg Prod.snd same).symm
        · exact absurd (first _ later) (String.lt_irrefl _)
      · rintro rfl
        exact .inl rfl
    · rw [List.find?_cons_of_neg (by simpa using here), ← ih others, List.mem_cons]
      exact or_iff_right fun same => here (same ▸ rfl)

theorem mem_known (asc : Ascending v.known) : (key, p) ∈ v.known ↔ v.find? key = some p :=
  mem_iff_find? asc

theorem mem_peers {device : String} : p ∈ v.peers device ↔ (∃ k, (k, p) ∈ v.known) ∧ p.device = device := by
  simp [peers, List.mem_filter]

theorem find?_insert (v : PeerView) (key : String) (p : Endpoint) (k : String) :
    (v.insert key p).find? k = if k = key then some p else v.find? k := by
  rw [find?, insert, find?_place]
  split <;> rfl

theorem find?_erase (v : PeerView) (key k : String) :
    (v.erase key).find? k = if k = key then none else v.find? k := by
  have filtered := find?_filter_key Prod.fst (fun a => decide (a ≠ key)) v.known k
  rw [find?, erase, filtered]
  by_cases same : k = key
  · simp [same]
  · simp [same, find?]

/-! What becomes of the changes handed over does not matter to what is known. -/

/-- The same, up to the devices that are pending. -/
structure Kept (v w : PeerView) : Prop where
  known : w.known = v.known
  layout : w.layout = v.layout
  identity : w.identity = v.identity

namespace Kept

theorem refl (v : PeerView) : Kept v v := ⟨rfl, rfl, rfl⟩

theorem trans {u : PeerView} (first : Kept u v) (second : Kept v w) : Kept u w :=
  ⟨second.known.trans first.known, second.layout.trans first.layout, second.identity.trans first.identity⟩

theorem find? (kept : Kept v w) (key : String) : w.find? key = v.find? key := by
  rw [PeerView.find?, kept.known]
  rfl

theorem peers (kept : Kept v w) (device : String) : w.peers device = v.peers device := by
  rw [PeerView.peers, kept.known]
  rfl

theorem peer? (kept : Kept v w) (e : KeyValue) : w.peer? e = v.peer? e := by
  rw [PeerView.peer?, kept.layout, kept.identity]
  rfl

end Kept

theorem defer_kept (v : PeerView) (device : String) : Kept v (v.defer device) := by
  unfold defer
  split <;> exact ⟨rfl, rfl, rfl⟩

theorem replay_kept {es : List Endpoint} (yields : (v.replay es).Yields w) : Kept v w := by
  induction es with
  | nil =>
    cases Program.yields_pure yields
    exact .refl v
  | cons e rest ih =>
    obtain ⟨x, yields⟩ := Program.yields_ask yields
    cases x with
    | ok => exact ih yields
    | error refusal =>
      cases refusal with
      | deviceNotReady device =>
        cases Program.yields_pure yields
        exact defer_kept v device
      | failed => exact ih yields

theorem deviceReady_kept {device : String} (yields : (v.deviceReady device).Yields w) : Kept v w := by
  unfold deviceReady at yields
  split at yields
  · have ready : Kept v (v.undefer device) := ⟨rfl, rfl, rfl⟩
    exact ready.trans (replay_kept yields)
  · cases Program.yields_pure yields
    exact .refl v

theorem deliver_kept {change : PeerChange} (yields : (v.deliver change).Yields w) : Kept v w := by
  obtain ⟨x, yields⟩ := Program.yields_ask yields
  cases x with
  | ok => exact deviceReady_kept yields
  | error refusal =>
    cases refusal with
    | deviceNotReady device =>
      cases Program.yields_pure yields
      exact defer_kept v device
    | failed =>
      cases Program.yields_pure yields
      exact .refl v

theorem deliverAll_kept {changes : List PeerChange} (yields : (v.deliverAll changes).Yields w) :
    Kept v w := by
  induction changes generalizing v with
  | nil =>
    cases Program.yields_pure yields
    exact .refl _
  | cons change rest ih =>
    obtain ⟨u, first, yields⟩ := Program.yields_bind yields
    exact (deliver_kept first).trans (ih yields)

/-! What an update teaches. -/

def learn (v : PeerView) (e : Event) : PeerView :=
  match e.change with
  | .put =>
    match v.peer? e.entry with
    | none => v
    | some p => if v.find? e.entry.key = some p then v else v.insert e.entry.key p
  | .delete => if (v.find? e.entry.key).isSome then v.erase e.entry.key else v

def gather (v : PeerView) (known : List (String × Endpoint)) (e : KeyValue) : List (String × Endpoint) :=
  match v.peer? e with
  | some p => place e.key p known
  | none => known

/-- The peers among the entries of a snapshot. -/
def fresh (v : PeerView) (entries : List KeyValue) : List (String × Endpoint) :=
  entries.foldl v.gather []

def learnAll (v : PeerView) : Update → PeerView
  | .snapshot entries => { v with known := v.fresh entries }
  | .events events => events.foldl learn v

theorem Kept.learn (kept : Kept v w) (e : Event) : Kept (v.learn e) (w.learn e) := by
  unfold PeerView.learn
  rw [kept.peer?, kept.find?]
  split
  · split
    · exact kept
    · split
      · exact kept
      · exact ⟨congrArg (place e.entry.key _) kept.known, kept.layout, kept.identity⟩
  · split
    · exact ⟨congrArg (List.filter _) kept.known, kept.layout, kept.identity⟩
    · exact kept

theorem Kept.learnAll (kept : Kept v w) (update : Update) : Kept (v.learnAll update) (w.learnAll update) := by
  cases update with
  | snapshot entries =>
    have gathered : w.gather = v.gather := by
      funext known e
      unfold gather
      rw [kept.peer?]
    refine ⟨?_, kept.layout, kept.identity⟩
    change entries.foldl w.gather [] = entries.foldl v.gather []
    rw [gathered]
  | events events =>
    change Kept (events.foldl PeerView.learn v) (events.foldl PeerView.learn w)
    induction events generalizing v w with
    | nil => exact kept
    | cons e rest ih => exact ih (kept.learn e)

theorem learn_self (v : PeerView) (e : Event) :
    (v.learn e).layout = v.layout ∧ (v.learn e).identity = v.identity := by
  unfold learn
  split
  · split
    · exact ⟨rfl, rfl⟩
    · split <;> exact ⟨rfl, rfl⟩
  · split <;> exact ⟨rfl, rfl⟩

theorem handleEvent_kept {e : Event} (yields : (v.handleEvent e).Yields w) : Kept (v.learn e) w := by
  unfold handleEvent at yields
  unfold learn
  cases change : e.change with
  | put =>
    cases peer : v.peer? e.entry with
    | none =>
      simp only [change, peer] at yields ⊢
      cases Program.yields_pure yields
      exact .refl v
    | some p =>
      simp only [change, peer] at yields ⊢
      split at yields
      · rename_i same
        rw [if_pos same]
        cases Program.yields_pure yields
        exact .refl v
      · rename_i new
        rw [if_neg new]
        exact deliver_kept yields
  | delete =>
    cases known : v.find? e.entry.key with
    | none =>
      simp only [change, known] at yields ⊢
      cases Program.yields_pure yields
      exact .refl v
    | some p =>
      simp only [change, known] at yields ⊢
      exact deliver_kept yields

theorem handleEvents_kept {u : PeerView} {events : List Event} (kept : Kept u v)
    (yields : (v.handleEvents events).Yields w) : Kept (events.foldl learn u) w := by
  induction events generalizing u v with
  | nil =>
    cases Program.yields_pure yields
    exact kept
  | cons e rest ih =>
    obtain ⟨x, first, yields⟩ := Program.yields_bind yields
    exact ih ((kept.learn e).trans (handleEvent_kept first)) yields

theorem handle_kept {update : Update} (yields : (v.handle update).Yields w) :
    Kept (v.learnAll update) w := by
  cases update with
  | snapshot entries => exact deliverAll_kept yields
  | events events => exact handleEvents_kept (.refl v) yields

theorem find?_learn (v : PeerView) (e : Event) (k : String) : (v.learn e).find? k =
    if k = e.entry.key then
      match e.change with
      | .put => (v.peer? e.entry).or (v.find? k)
      | .delete => none
    else v.find? k := by
  unfold learn
  cases e.change with
  | put =>
    dsimp only
    cases v.peer? e.entry with
    | none => simp
    | some p =>
      dsimp only
      split
      · rename_i same
        split
        · rename_i here
          rw [here, same]
          rfl
        · rfl
      · exact find?_insert v e.entry.key p k
  | delete =>
    dsimp only
    split
    · exact find?_erase v e.entry.key k
    · rename_i absent
      split
      · rename_i here
        rw [here]
        simpa using absent
      · rfl

theorem learn_ascending (asc : Ascending v.known) (e : Event) : Ascending (v.learn e).known := by
  unfold learn
  split
  · split
    · exact asc
    · split
      · exact asc
      · exact place_ascending asc
  · split
    · exact asc.filter _
    · exact asc

theorem gather_ascending (asc : Ascending known) (entries : List KeyValue) :
    Ascending (entries.foldl v.gather known) := by
  induction entries generalizing known with
  | nil => exact asc
  | cons e rest ih =>
    apply ih
    unfold gather
    split
    · exact place_ascending asc
    · exact asc

theorem fresh_ascending (v : PeerView) (entries : List KeyValue) : Ascending (v.fresh entries) :=
  gather_ascending (v := v) .nil entries

theorem mem_gather {entries : List KeyValue} {a : String × Endpoint} (mem : a ∈ entries.foldl v.gather known) :
    (∃ e ∈ entries, e.key = a.1 ∧ v.peer? e = some a.2) ∨ a ∈ known := by
  induction entries generalizing known with
  | nil => exact .inr mem
  | cons e rest ih =>
    rcases ih mem with ⟨f, later, here⟩ | mem
    · exact .inl ⟨f, List.mem_cons_of_mem e later, here⟩
    · unfold gather at mem
      split at mem
      · rename_i p peer
        rcases mem_of_mem_place mem with rfl | old
        · exact .inl ⟨e, List.mem_cons_self, rfl, peer⟩
        · exact .inr old
      · exact .inr mem

theorem mem_fresh {entries : List KeyValue} {a : String × Endpoint} (mem : a ∈ v.fresh entries) :
    ∃ e ∈ entries, e.key = a.1 ∧ v.peer? e = some a.2 := by
  rcases mem_gather (v := v) mem with found | none
  · exact found
  · cases none

theorem find?_gather {entries : List KeyValue} (asc : Store.Ascending entries) (k : String) :
    (entries.foldl v.gather known).find? (·.1 = k) =
      (((entries.find? (·.key = k)).bind v.peer?).map (k, ·)).or (known.find? (·.1 = k)) := by
  induction entries generalizing known with
  | nil => rfl
  | cons e rest ih =>
    obtain ⟨first, others⟩ := List.pairwise_cons.1 asc
    have step : (v.gather known e).find? (·.1 = k) =
        if e.key = k then ((v.peer? e).map (k, ·)).or (known.find? (·.1 = k)) else known.find? (·.1 = k) := by
      unfold gather
      cases v.peer? e with
      | none => simp
      | some p =>
        rw [find?_place]
        by_cases here : e.key = k
        · rw [if_pos here.symm, if_pos here, here]
          rfl
        · rw [if_neg (Ne.symm here), if_neg here]
    rw [List.foldl_cons, ih others, step]
    by_cases here : e.key = k
    · have last : rest.find? (·.key = k) = none := by
        rw [List.find?_eq_none]
        intro f mem same
        have same : f.key = k := by simpa using same
        exact String.lt_irrefl k (by simpa [here, same] using first f mem)
      rw [last, if_pos here, List.find?_cons_of_pos (by simpa using here)]
      rfl
    · rw [if_neg here, List.find?_cons_of_neg (by simpa using here)]

/-- A snapshot with each key once is taken over as it is. -/
theorem find?_fresh {entries : List KeyValue} (asc : Store.Ascending entries) (k : String) :
    (v.learnAll (.snapshot entries)).find? k = (entries.find? (·.key = k)).bind v.peer? := by
  have gathered : (entries.foldl v.gather []).find? (·.1 = k) = _ := find?_gather asc k
  change Option.map _ ((entries.foldl v.gather []).find? _) = _
  rw [gathered]
  cases (entries.find? (·.key = k)).bind v.peer? <;> rfl

end NetPool.PeerView
