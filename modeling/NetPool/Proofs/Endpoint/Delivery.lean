import NetPool.Proofs.Endpoint.View
import NetPool.Proofs.Interference
import NetPool.Proofs.Keys

/-! A view that hands its changes to a data plane. The data plane refuses changes for a device until it
appears, and that may be at any moment. -/

namespace NetPool

/-- A data plane: which devices are there, and for each the addresses it has been given with their owners. -/
structure Sink where
  ready : String → Prop
  holds : String → Address → Option String

namespace Sink

def applied (s : Sink) (change : PeerChange) : Sink where
  ready := s.ready
  holds d a := if d = change.endpoint.device ∧ a = change.endpoint.address then
      match change with
      | .added e => some e.owner
      | .removed _ => none
    else s.holds d a

/-- A change is taken if its device is there, and refused without effect if not. -/
def Answers (s : Sink) : (r : Request) → r.Answer → Sink → Prop
  | .apply change, x, t => s.ready change.endpoint.device ∧ x = .ok () ∧ t = s.applied change ∨
      ¬ s.ready change.endpoint.device ∧ x = .error (.deviceNotReady change.endpoint.device) ∧ t = s
  | _, _, t => t = s

/-- Devices appear, and stay. -/
structure Appears (s t : Sink) : Prop where
  holds : t.holds = s.holds
  ready : ∀ d, s.ready d → t.ready d

/-- What is not there has been given nothing. -/
def Bare (s : Sink) : Prop := ∀ d, ¬ s.ready d → ∀ a, s.holds d a = none

/-- The terms of one who delivers: devices appear at any moment. -/
def delivering : Terms Sink where
  answers := Answers
  valid := Bare
  rely := Appears
  guarantee := fun _ _ _ => True
  refl := fun _ => ⟨rfl, fun _ => id⟩
  trans := fun a b => ⟨b.holds.trans a.holds, fun d here => b.ready d (a.ready d here)⟩

variable {s t : Sink} {change : PeerChange}

theorem applied_other {d : String} {a : Address}
    (other : ¬ (d = change.endpoint.device ∧ a = change.endpoint.address)) :
    (s.applied change).holds d a = s.holds d a := if_neg other

theorem Bare.applied (bare : s.Bare) (ready : s.ready change.endpoint.device) : (s.applied change).Bare := by
  intro d gone a
  rw [applied_other]
  · exact bare d gone a
  · rintro ⟨rfl, _⟩
    exact gone ready

theorem Bare.appears (bare : s.Bare) (appears : Appears s t) : t.Bare := by
  intro d gone a
  rw [appears.holds]
  exact bare d (fun here => gone (appears.ready d here)) a

end Sink

/-- The record of an endpoint stands under the key of its device and address. -/
def KeyValue.Canonical (l : KeyLayout) (e : KeyValue) : Prop :=
  ∀ d a, l.parseEndpointKey e.key = some (d, a) → e.key = l.endpointKey d a

def Update.Canonical (l : KeyLayout) : Update → Prop
  | .snapshot held => ∀ e ∈ held, e.Canonical l
  | .events es => ∀ e ∈ es, e.entry.Canonical l

namespace PeerView

open Sink

variable {l : KeyLayout} {v w : PeerView} {s t : Sink}

/-- Each known peer is known under the key of its device and address. -/
structure Canonical (l : KeyLayout) (v : PeerView) : Prop where
  layout : v.layout = l
  ascending : Ascending v.known
  keys : ∀ k p, v.find? k = some p → k = l.endpointKey p.device p.address ∧ '/' ∉ p.device.toList

theorem Canonical.kept (canonical : Canonical l v) (kept : Kept v w) : Canonical l w :=
  ⟨kept.layout.trans canonical.layout, kept.known.symm ▸ canonical.ascending,
    fun k p found => canonical.keys k p ((kept.find? k).symm.trans found)⟩

theorem Canonical.mem_peers (canonical : Canonical l v) {d o : String} {a : Address} :
    ⟨d, a, o⟩ ∈ v.peers d ↔ v.find? (l.endpointKey d a) = some ⟨d, a, o⟩ := by
  rw [PeerView.mem_peers]
  constructor
  · rintro ⟨⟨k, mem⟩, _⟩
    have found := (mem_known canonical.ascending).1 mem
    rw [← (canonical.keys k _ found).1]
    exact found
  · intro found
    exact ⟨⟨_, (mem_known canonical.ascending).2 found⟩, rfl⟩

/-- A change that is still to be delivered says what the view knows. -/
def Due (v : PeerView) : PeerChange → Prop
  | .added e => e ∈ v.peers e.device
  | .removed e => ∀ o, ⟨e.device, e.address, o⟩ ∉ v.peers e.device

/-- What the data plane has for a device beside what the view knows, while changes are to be delivered. -/
def Synced (v : PeerView) (todo : List PeerChange) (s : Sink) (d : String) : Prop :=
  if v.isPending d then ∀ a, s.holds d a = none
  else ∀ a, (∀ o, s.holds d a = some o ↔ ⟨d, a, o⟩ ∈ v.peers d) ∨
    ∃ change ∈ todo, change.endpoint.device = d ∧ change.endpoint.address = a

structure Mid (l : KeyLayout) (v : PeerView) (todo : List PeerChange) (s : Sink) : Prop where
  canonical : Canonical l v
  due : ∀ change ∈ todo, v.Due change
  synced : ∀ d, v.Synced todo s d

/-! Devices that are put off, or handed over to anew. -/

theorem isPending_defer (v : PeerView) (d e : String) :
    (v.defer d).isPending e = (decide (e = d) || v.isPending e) := by
  unfold defer
  split
  · rename_i here
    by_cases same : e = d
    · simp [same, here]
    · simp [same]
  · simp [isPending, eq_comm]

theorem isPending_undefer (v : PeerView) (d e : String) :
    (v.undefer d).isPending e = (decide (e ≠ d) && v.isPending e) := by
  by_cases same : e = d <;> simp [isPending, undefer, same]

section Mid

variable {todo rest : List PeerChange} {change : PeerChange} {d : String}

theorem Due.kept (kept : Kept v w) (due : v.Due change) : w.Due change := by
  cases change with
  | added e =>
    change e ∈ w.peers e.device
    rw [kept.peers]
    exact due
  | removed e =>
    intro o
    rw [kept.peers]
    exact due o

/-- A device that no change was for. -/
theorem Synced.other (synced : v.Synced todo s d) (kept : Kept v w) (pending : w.isPending d = v.isPending d)
    (holds : ∀ a, t.holds d a = s.holds d a)
    (left : ∀ change ∈ todo, change.endpoint.device = d → change ∈ rest) : w.Synced rest t d := by
  unfold Synced at synced ⊢
  rw [pending, kept.peers]
  split
  · rename_i here
    rw [if_pos here] at synced
    exact fun a => (holds a).trans (synced a)
  · rename_i here
    rw [if_neg here] at synced
    intro a
    rw [holds]
    exact (synced a).imp_right fun ⟨change, mem, device, address⟩ =>
      ⟨change, left change mem device, device, address⟩

theorem Mid.appears (mid : Mid l v todo s) (appears : Appears s t) : Mid l v todo t :=
  ⟨mid.canonical, mid.due, fun d => (mid.synced d).other (.refl v) rfl
    (fun a => congrFun (congrFun appears.holds d) a) fun _ mem _ => mem⟩

theorem Mid.empty (mid : Mid l v todo s) (pending : v.isPending d = true) (a : Address) :
    s.holds d a = none := by
  have synced := mid.synced d
  rw [Synced, if_pos pending] at synced
  exact synced a

theorem later_of_other {other : PeerChange} (mem : other ∈ change :: rest)
    (away : other.endpoint.device ≠ change.endpoint.device) : other ∈ rest := by
  rcases List.mem_cons.1 mem with rfl | later
  · exact absurd rfl away
  · exact later

/-- A change for a device that is put off need not be delivered. -/
theorem Mid.skip (mid : Mid l v (change :: rest) s) (pending : v.isPending change.endpoint.device = true) :
    Mid l v rest s := by
  refine ⟨mid.canonical, fun other mem => mid.due other (List.mem_cons_of_mem _ mem), fun d => ?_⟩
  by_cases same : d = change.endpoint.device
  · rw [Synced, if_pos (same ▸ pending)]
    exact mid.empty (same ▸ pending)
  · exact (mid.synced d).other (.refl v) rfl (fun _ => rfl) fun other mem device =>
      later_of_other mem fun here => same (device.symm.trans here)

/-- A device that is not there is put off, and what was to be delivered to it. -/
theorem Mid.defer (mid : Mid l v todo s) (bare : s.Bare) (gone : ¬ s.ready d)
    (sub : ∀ change ∈ rest, change ∈ todo)
    (left : ∀ change ∈ todo, change.endpoint.device ≠ d → change ∈ rest) : Mid l (v.defer d) rest s := by
  have kept := defer_kept v d
  refine ⟨mid.canonical.kept kept, fun change mem => (mid.due change (sub change mem)).kept kept, fun e => ?_⟩
  by_cases same : e = d
  · subst same
    rw [Synced, if_pos (by simp [isPending_defer])]
    exact bare e gone
  · exact (mid.synced e).other kept (by simp [isPending_defer, same]) (fun _ => rfl)
      fun change mem device => left change mem (fun here => same (device.symm.trans here))

/-- A change that has been taken. -/
theorem Mid.applied (mid : Mid l v (change :: rest) s) (ready : v.isPending change.endpoint.device = false) :
    Mid l v rest (s.applied change) := by
  refine ⟨mid.canonical, fun other mem => mid.due other (List.mem_cons_of_mem _ mem), fun d => ?_⟩
  by_cases same : d = change.endpoint.device
  · subst same
    have synced := mid.synced change.endpoint.device
    rw [Synced, if_neg (by simp [ready])] at synced ⊢
    intro a
    by_cases here : a = change.endpoint.address
    · subst here
      refine .inl fun o => ?_
      have due := mid.due change List.mem_cons_self
      cases change with
      | added e =>
        have shown : (s.applied (.added e)).holds e.device e.address = some e.owner := by
          simp [Sink.applied, PeerChange.endpoint]
        change (s.applied (.added e)).holds e.device e.address = some o ↔ ⟨e.device, e.address, o⟩ ∈ v.peers e.device
        rw [shown, mid.canonical.mem_peers, (mid.canonical.mem_peers (o := e.owner)).1 due]
        simp
      | removed e =>
        have shown : (s.applied (.removed e)).holds e.device e.address = none := by
          simp [Sink.applied, PeerChange.endpoint]
        change (s.applied (.removed e)).holds e.device e.address = some o ↔ ⟨e.device, e.address, o⟩ ∈ v.peers e.device
        rw [shown]
        simp only [reduceCtorEq, false_iff]
        exact due o
    · rw [applied_other fun both => here both.2]
      refine (synced a).imp_right ?_
      rintro ⟨other, mem, device, address⟩
      rcases List.mem_cons.1 mem with rfl | later
      · exact absurd address.symm here
      · exact ⟨other, later, device, address⟩
  · exact (mid.synced d).other (.refl v) rfl (fun a => applied_other fun both => same both.1)
      fun other mem device => later_of_other mem fun here => same (device.symm.trans here)

/-- A device that was put off is handed all its peers. -/
theorem Mid.undefer (mid : Mid l v rest s) (others : ∀ e, e ≠ d → t.holds e = s.holds e)
    (known : ∀ a, t.holds d a = none ∨ ∃ o, ⟨d, a, o⟩ ∈ v.peers d) :
    Mid l (v.undefer d) ((v.peers d).map .added ++ rest) t := by
  have kept : Kept v (v.undefer d) := ⟨rfl, rfl, rfl⟩
  refine ⟨mid.canonical.kept kept, fun change mem => ?_, fun e => ?_⟩
  · rcases List.mem_append.1 mem with again | later
    · obtain ⟨p, here, rfl⟩ := List.mem_map.1 again
      have device : p.device = d := (PeerView.mem_peers.1 here).2
      change p ∈ v.peers p.device
      exact device.symm ▸ here
    · exact (mid.due change later).kept kept
  · by_cases same : e = d
    · subst same
      rw [Synced, if_neg (by simp [isPending_undefer])]
      intro a
      by_cases peer : ∃ o, ⟨e, a, o⟩ ∈ v.peers e
      · obtain ⟨o, mem⟩ := peer
        exact .inr ⟨.added ⟨e, a, o⟩, List.mem_append_left _ (List.mem_map.2 ⟨_, mem, rfl⟩), rfl, rfl⟩
      · have nothing := (known a).resolve_right peer
        refine .inl fun o => ?_
        rw [nothing]
        exact iff_of_false nofun fun mem => peer ⟨o, mem⟩
    · exact (mid.synced e).other kept (by simp [isPending_undefer, same])
        (fun a => congrFun (others e same) a) fun change mem _ => List.mem_append_right _ mem

end Mid

/-! What a call of the view comes to. -/

abbrev Leads (l : KeyLayout) (todo : List PeerChange) (p : Program PeerView) (s : Sink) : Prop :=
  Safe delivering (fun w t => Mid l w todo t) p s

theorem leads_done {todo : List PeerChange} (mid : Mid l v todo s) : Leads l todo (.pure v) s :=
  fun _ appears _ => mid.appears appears

theorem apply_leads {todo rest : List PeerChange} {change : PeerChange}
    {next : Except Refusal Unit → Program PeerView} (mid : Mid l v todo s)
    (taken : ∀ t, t.Bare → Mid l v todo t → t.ready change.endpoint.device →
      Leads l rest (next (.ok ())) (t.applied change))
    (refused : ∀ t, t.Bare → Mid l v todo t → ¬ t.ready change.endpoint.device →
      Leads l rest (next (.error (.deviceNotReady change.endpoint.device))) t) :
    Leads l rest (.ask (.apply change) next) s := by
  rintro t appears bare x u (⟨ready, rfl, rfl⟩ | ⟨gone, rfl, rfl⟩)
  · exact ⟨Bare.applied bare ready, trivial, taken t bare (mid.appears appears) ready⟩
  · exact ⟨bare, trivial, refused _ bare (mid.appears appears) gone⟩

theorem replay_leads {rest : List PeerChange} {d : String} {es : List Endpoint}
    (own : ∀ e ∈ es, e.device = d) (ready : v.isPending d = false)
    (mid : Mid l v (es.map .added ++ rest) s) : Leads l rest (v.replay es) s := by
  induction es generalizing s with
  | nil => exact leads_done mid
  | cons e es ih =>
    have device : e.device = d := own e List.mem_cons_self
    refine apply_leads mid (fun t _ mid _ => ?_) fun t bare mid gone => ?_
    · exact ih (fun f mem => own f (List.mem_cons_of_mem e mem)) (mid.applied (device ▸ ready))
    · refine leads_done (mid.defer bare gone (fun _ mem => List.mem_append_right _ mem) ?_)
      intro change mem other
      rcases List.mem_append.1 mem with again | later
      · obtain ⟨f, here, rfl⟩ := List.mem_map.1 again
        exact absurd ((own f here).trans device.symm) other
      · exact later

theorem deviceReady_leads {rest : List PeerChange} (d : String) (mid : Mid l v rest s) :
    Leads l rest (v.deviceReady d) s := by
  unfold deviceReady
  split
  · rename_i pending
    refine replay_leads (fun e mem => (PeerView.mem_peers.1 mem).2) (by simp [isPending_undefer]) ?_
    exact mid.undefer (fun _ _ => rfl) fun a => .inl (mid.empty pending a)
  · exact leads_done mid

/-- The device may have been pending: then the change has gone to a data plane that had nothing for it, and
all its peers follow. -/
theorem deliver_leads {change : PeerChange} {rest : List PeerChange} (mid : Mid l v (change :: rest) s) :
    Leads l rest (v.deliver change) s := by
  refine apply_leads mid (fun t _ mid _ => ?_) fun t bare mid gone => ?_
  · change Leads l rest (v.deviceReady change.endpoint.device) _
    by_cases pending : v.isPending change.endpoint.device = true
    · rw [deviceReady, if_pos pending]
      refine replay_leads (fun e mem => (PeerView.mem_peers.1 mem).2) (by simp [isPending_undefer]) ?_
      refine (mid.skip pending).undefer (fun e other => ?_) fun a => ?_
      · funext a
        exact applied_other fun both => other both.1
      · by_cases here : a = change.endpoint.address
        · subst here
          have due := mid.due change List.mem_cons_self
          cases change with
          | added e => exact .inr ⟨e.owner, due⟩
          | removed e => exact .inl (if_pos ⟨rfl, rfl⟩)
        · rw [applied_other fun both => here both.2]
          exact .inl (mid.empty pending a)
    · rw [deviceReady, if_neg pending]
      exact leads_done (mid.applied (by simpa using pending))
  · exact leads_done (mid.defer bare gone (fun _ mem => List.mem_cons_of_mem _ mem)
      fun other mem away => later_of_other mem away)

theorem deliverAll_leads {changes : List PeerChange} (bare : s.Bare) (mid : Mid l v changes s) :
    Leads l [] (v.deliverAll changes) s := by
  induction changes generalizing v s with
  | nil => exact leads_done mid
  | cons change rest ih => exact Safe.bind (deliver_leads mid) bare fun w t bare mid => ih bare mid

/-! What is to be delivered once the view has changed. -/

theorem peer?_key {e : KeyValue} {p : Endpoint} (peer : v.peer? e = some p) :
    v.layout.parseEndpointKey e.key = some (p.device, p.address) := by
  unfold peer? Endpoint.ofEntry at peer
  cases key : v.layout.parseEndpointKey e.key with
  | none => simp [key] at peer
  | some slot =>
    cases decoded : ClaimRecord.decode e.key e.value with
    | error failure => simp [key, decoded, bind, Except.bind] at peer
    | ok record =>
      simp only [key, decoded, bind, Except.bind, pure, Except.pure] at peer
      split at peer
      · cases peer
      · cases peer
        rfl

theorem Canonical.peer (canonical : Canonical l v) {e : KeyValue} (own : e.Canonical l) {p : Endpoint}
    (peer : v.peer? e = some p) : e.key = l.endpointKey p.device p.address ∧ '/' ∉ p.device.toList := by
  have key := peer?_key peer
  rw [canonical.layout] at key
  obtain ⟨_, _, plain, _⟩ := KeyLayout.parseEndpointKey_eq_some key
  exact ⟨own _ _ key, plain⟩

/-- A peer known under the key of an address is the peer there. -/
theorem Canonical.at_key (canonical : Canonical l v) {d : String} {a : Address} {p : Endpoint}
    (found : v.find? (l.endpointKey d a) = some p) : d = p.device ∧ a = p.address := by
  obtain ⟨key, plain⟩ := canonical.keys _ p found
  exact KeyLayout.endpointKey_inj plain key

/-- The view has changed: an address for which nothing is to be delivered has the peer it had. -/
theorem Mid.changed {todo : List PeerChange} (mid : Mid l v [] s) (canonical : Canonical l w)
    (pending : w.pending = v.pending) (due : ∀ change ∈ todo, w.Due change)
    (left : ∀ d a, v.find? (l.endpointKey d a) = w.find? (l.endpointKey d a) ∨
      ∃ change ∈ todo, change.endpoint.device = d ∧ change.endpoint.address = a) : Mid l w todo s := by
  refine ⟨canonical, due, fun d => ?_⟩
  have synced := mid.synced d
  have same : w.isPending d = v.isPending d := congrArg (·.contains d) pending
  unfold Synced at synced ⊢
  rw [same]
  split
  · rename_i here
    rwa [if_pos here] at synced
  · rename_i here
    rw [if_neg here] at synced
    intro a
    refine (left d a).imp_left fun kept o => ?_
    rw [canonical.mem_peers, ← kept, ← mid.canonical.mem_peers]
    rcases synced a with shows | ⟨_, none, _⟩
    · exact shows o
    · cases none

theorem Mid.insert (mid : Mid l v [] s) {key : String} {p : Endpoint}
    (own : key = l.endpointKey p.device p.address ∧ '/' ∉ p.device.toList) :
    Mid l (v.insert key p) [.added p] s := by
  have canonical : Canonical l (v.insert key p) := by
    refine ⟨mid.canonical.layout, place_ascending mid.canonical.ascending, fun k q found => ?_⟩
    rw [find?_insert] at found
    split at found
    · rename_i same
      cases found
      exact same ▸ own
    · exact mid.canonical.keys k q found
  refine mid.changed canonical rfl (List.forall_mem_singleton.2 ?_) fun d a => ?_
  · exact canonical.mem_peers.2 (by rw [← own.1, find?_insert, if_pos rfl])
  · rw [find?_insert]
    split
    · rename_i same
      obtain ⟨rfl, rfl⟩ := KeyLayout.endpointKey_inj own.2 (same.trans own.1)
      exact .inr ⟨.added p, List.mem_cons_self, rfl, rfl⟩
    · exact .inl rfl

theorem Mid.erase (mid : Mid l v [] s) {key : String} {p : Endpoint} (known : v.find? key = some p) :
    Mid l (v.erase key) [.removed p] s := by
  have canonical : Canonical l (v.erase key) := by
    refine ⟨mid.canonical.layout, mid.canonical.ascending.filter _, fun k q found => ?_⟩
    rw [find?_erase] at found
    split at found
    · cases found
    · exact mid.canonical.keys k q found
  obtain ⟨own, _⟩ := mid.canonical.keys key p known
  refine mid.changed canonical rfl (List.forall_mem_singleton.2 fun o mem => ?_) fun d a => ?_
  · have found := canonical.mem_peers.1 mem
    rw [← own, find?_erase, if_pos rfl] at found
    cases found
  · rw [find?_erase]
    split
    · rename_i same
      obtain ⟨rfl, rfl⟩ := mid.canonical.at_key (same ▸ known)
      exact .inr ⟨.removed p, List.mem_cons_self, rfl, rfl⟩
    · exact .inl rfl

/-- Who has left, and who has come or changed, when the view is replaced. -/
def differences (v : PeerView) (known : List (String × Endpoint)) : List PeerChange :=
  (v.known.filter fun a => ! known.any (·.1 = a.1)).map (fun a => .removed a.2) ++
    (known.filter fun a => v.find? a.1 ≠ some a.2).map fun a => .added a.2

theorem reset_eq (v : PeerView) (entries : List KeyValue) :
    v.reset entries = deliverAll { v with known := v.fresh entries } (v.differences (v.fresh entries)) := rfl

theorem mem_differences {known : List (String × Endpoint)} {change : PeerChange} :
    change ∈ v.differences known ↔
      (∃ k q, (k, q) ∈ v.known ∧ (∀ p, (k, p) ∉ known) ∧ change = .removed q) ∨
      ∃ k p, (k, p) ∈ known ∧ v.find? k ≠ some p ∧ change = .added p := by
  simp only [differences, List.mem_append, List.mem_map, List.mem_filter, Prod.exists, Bool.not_eq_true',
    List.any_eq_false, decide_eq_true_iff]
  refine or_congr (exists_congr fun k => exists_congr fun q => ?_)
    (exists_congr fun k => exists_congr fun p => ?_)
  · constructor
    · rintro ⟨⟨mem, absent⟩, rfl⟩
      exact ⟨mem, fun p here => absent (k, p) here rfl, rfl⟩
    · rintro ⟨mem, absent, rfl⟩
      exact ⟨⟨mem, fun x here same => absent x.2 (same ▸ here)⟩, rfl⟩
  · constructor
    · rintro ⟨⟨mem, other⟩, rfl⟩
      exact ⟨mem, other, rfl⟩
    · rintro ⟨mem, other, rfl⟩
      exact ⟨⟨mem, other⟩, rfl⟩

theorem Mid.reset (mid : Mid l v [] s) {entries : List KeyValue} (own : ∀ e ∈ entries, e.Canonical l) :
    Mid l { v with known := v.fresh entries } (v.differences (v.fresh entries)) s := by
  obtain ⟨w, same⟩ : ∃ w, w = { v with known := v.fresh entries } := ⟨_, rfl⟩
  have known : w.known = v.fresh entries := congrArg PeerView.known same
  have ascending : Ascending w.known := known.symm ▸ fresh_ascending v entries
  have canonical : Canonical l w := by
    refine ⟨same ▸ mid.canonical.layout, ascending, fun k p found => ?_⟩
    have mem := (mem_known ascending).2 found
    rw [known] at mem
    obtain ⟨e, here, rfl, peer⟩ := mem_fresh mem
    exact mid.canonical.peer (own e here) peer
  rw [← same, ← known]
  refine mid.changed canonical (by rw [same]) (fun change mem => ?_) fun d a => ?_
  · rcases mem_differences.1 mem with ⟨k, q, old, absent, rfl⟩ | ⟨k, p, here, _, rfl⟩
    · intro o mem
      have key := (mid.canonical.keys k q ((mem_known mid.canonical.ascending).1 old)).1
      have found := canonical.mem_peers.1 mem
      rw [← key] at found
      exact absent _ ((mem_known ascending).2 found)
    · have found := (mem_known ascending).1 here
      rw [(canonical.keys k p found).1] at found
      exact canonical.mem_peers.2 found
  · cases now : w.find? (l.endpointKey d a) with
    | some p =>
      by_cases before : v.find? (l.endpointKey d a) = some p
      · exact .inl before
      · obtain ⟨rfl, rfl⟩ := canonical.at_key now
        exact .inr ⟨.added p, mem_differences.2 (.inr ⟨_, p, (mem_known ascending).2 now, before, rfl⟩),
          rfl, rfl⟩
    | none =>
      cases before : v.find? (l.endpointKey d a) with
      | none => exact .inl rfl
      | some q =>
        obtain ⟨rfl, rfl⟩ := mid.canonical.at_key before
        refine .inr ⟨.removed q, mem_differences.2 (.inl ⟨_, q, (mem_known mid.canonical.ascending).2 before,
          fun p mem => ?_, rfl⟩), rfl, rfl⟩
        rw [(mem_known ascending).1 mem] at now
        cases now

theorem handleEvent_leads {e : Event} (own : e.entry.Canonical l) (mid : Mid l v [] s) :
    Leads l [] (v.handleEvent e) s := by
  unfold handleEvent
  split
  · split
    · exact leads_done mid
    · rename_i p peer
      split
      · exact leads_done mid
      · exact deliver_leads (mid.insert (mid.canonical.peer own peer))
  · split
    · exact leads_done mid
    · rename_i p known
      exact deliver_leads (mid.erase known)

theorem handle_leads {u : Update} (own : u.Canonical l) (bare : s.Bare) (mid : Mid l v [] s) :
    Leads l [] (v.handle u) s := by
  cases u with
  | snapshot entries =>
    change Leads l [] (v.reset entries) s
    rw [reset_eq]
    exact deliverAll_leads bare (mid.reset own)
  | events events =>
    change Leads l [] (v.handleEvents events) s
    induction events generalizing v s with
    | nil => exact leads_done mid
    | cons e rest ih =>
      have others : Update.Canonical l (.events rest) := fun f mem => own f (List.mem_cons_of_mem e mem)
      exact Safe.bind (handleEvent_leads (own e List.mem_cons_self) mid) bare fun w t bare mid =>
        ih bare mid others

end PeerView

/-- A view at work beside a data plane: the call that is under way, if there is one. -/
structure Delivery where
  sink : Sink
  view : PeerView
  call : Option (Program PeerView)

namespace Delivery

open Sink PeerView

inductive Step (l : KeyLayout) : Delivery → Delivery → Prop
  | appeared (c : Delivery) {s} (appears : Appears c.sink s) : Step l c { c with sink := s }
  | handles (c : Delivery) {u : Update} (idle : c.call = none) (own : u.Canonical l) :
      Step l c { c with call := some (c.view.handle u) }
  | readies (c : Delivery) {device} (idle : c.call = none) :
      Step l c { c with call := some (c.view.deviceReady device) }
  | answered (c : Delivery) {r next x t} (waits : c.call = some (.ask r next)) (answer : c.sink.Answers r x t) :
      Step l c { c with sink := t, call := some (next x) }
  | ended (c : Delivery) {v} (finished : c.call = some (.pure v)) : Step l c { c with view := v, call := none }

/-- A run from a view that knows nothing and a data plane that has been given nothing. -/
inductive Reached (l : KeyLayout) (identity : String) : Delivery → Prop
  | start (ready : String → Prop) :
      Reached l identity ⟨⟨ready, fun _ _ => none⟩, { layout := l, identity := identity }, none⟩
  | step {c d} (reached : Reached l identity c) (step : Step l c d) : Reached l identity d

structure Right (l : KeyLayout) (c : Delivery) : Prop where
  bare : c.sink.Bare
  rest : c.call = none → Mid l c.view [] c.sink
  call : ∀ p ∈ c.call, Leads l [] p c.sink

theorem start_right (l : KeyLayout) (identity : String) (ready : String → Prop) :
    Right l ⟨⟨ready, fun _ _ => none⟩, { layout := l, identity := identity }, none⟩ := by
  refine ⟨fun _ _ _ => rfl, fun _ => ⟨⟨rfl, .nil, nofun⟩, nofun, fun d => ?_⟩, fun _ mem => nomatch mem⟩
  rw [Synced, if_neg (by simp [isPending])]
  exact fun a => .inl fun o => iff_of_false nofun nofun

theorem Right.step {l : KeyLayout} {c d : Delivery} (right : Right l c) (step : Step l c d) : Right l d := by
  cases step with
  | appeared appears =>
    exact ⟨right.bare.appears appears, fun idle => (right.rest idle).appears appears,
      fun p mem => (right.call p mem).later appears⟩
  | handles idle own =>
    refine ⟨right.bare, nofun, fun p mem => ?_⟩
    cases mem
    exact handle_leads own right.bare (right.rest idle)
  | readies idle =>
    refine ⟨right.bare, nofun, fun p mem => ?_⟩
    cases mem
    exact deviceReady_leads _ (right.rest idle)
  | answered waits answer =>
    obtain ⟨bare, _, rest⟩ :=
      right.call _ waits c.sink (delivering.refl _) right.bare _ _ answer
    refine ⟨bare, nofun, fun p mem => ?_⟩
    cases mem
    exact rest
  | ended finished =>
    exact ⟨right.bare, fun _ => right.call _ finished c.sink (delivering.refl _) right.bare,
      fun _ mem => nomatch mem⟩

theorem Reached.right {l : KeyLayout} {identity : String} {c : Delivery} (reached : Reached l identity c) :
    Right l c := by
  induction reached with
  | start ready => exact start_right l identity ready
  | step _ step ih => exact ih.step step

/-- Between two calls, a device is pending and the data plane has nothing for it, or it is not and the data
plane has just the peers that the view knows. -/
theorem sink_has_peers {l : KeyLayout} {identity : String} {c : Delivery} (reached : Reached l identity c)
    (idle : c.call = none) (device : String) :
    c.view.isPending device = true ∧ (∀ a, c.sink.holds device a = none) ∨
    c.view.isPending device = false ∧ ∀ a owner,
      c.sink.holds device a = some owner ↔ ⟨device, a, owner⟩ ∈ c.view.peers device := by
  have synced := (reached.right.rest idle).synced device
  unfold Synced at synced
  cases pending : c.view.isPending device with
  | true =>
    rw [pending, if_pos rfl] at synced
    exact .inl ⟨rfl, synced⟩
  | false =>
    rw [pending, if_neg nofun] at synced
    refine .inr ⟨rfl, fun a => ?_⟩
    rcases synced a with shows | ⟨_, none, _⟩
    · exact shows
    · cases none

/-! Two peers come by a snapshot, and their device appears between the two deliveries. -/

def slot (a : Address) : String := KeyLayout.standard.endpointKey "vx0" a

def arrivals : List KeyValue :=
  [⟨slot 0x0A000002, (ClaimRecord.ofOwner "one").encode, 1, 1⟩,
    ⟨slot 0x0A000003, (ClaimRecord.ofOwner "two").encode, 2, 2⟩]

theorem arrivals_canonical : (Update.snapshot arrivals).Canonical .standard := by
  have read : ∀ e ∈ arrivals, (KeyLayout.standard.parseEndpointKey e.key).map
      (fun x => KeyLayout.standard.endpointKey x.1 x.2) = some e.key := by decide +kernel
  intro e mem d a key
  have same := read e mem
  rw [key] at same
  exact (Option.some.inj same).symm

theorem two_peers_handed_over : ∃ c, Reached .standard "me" c ∧ c.call = none ∧
    c.view.isPending "vx0" = false ∧ (∀ a owner, c.sink.holds "vx0" a = some owner ↔
      ⟨"vx0", a, owner⟩ ∈ c.view.peers "vx0") ∧ c.sink.holds "vx0" 0x0A000002 = some "one" := by
  have c0 : Reached .standard "me" _ := .start fun _ => False
  have c1 := c0.step (.handles _ rfl arrivals_canonical)
  have c2 := c1.step (.answered _ rfl (.inr ⟨id, rfl, rfl⟩))
  have c3 := c2.step (.appeared (s := ⟨fun _ => True, fun _ _ => none⟩) _ ⟨rfl, fun _ => nofun⟩)
  have c4 := c3.step (.answered _ rfl (.inl ⟨trivial, rfl, rfl⟩))
  have c5 := c4.step (.answered _ rfl (.inl ⟨trivial, rfl, rfl⟩))
  have c6 := c5.step (.answered _ rfl (.inl ⟨trivial, rfl, rfl⟩))
  have c7 := c6.step (.ended _ rfl)
  rcases sink_has_peers c7 rfl "vx0" with ⟨pending, _⟩ | ⟨ready, shows⟩
  · cases pending
  · exact ⟨_, c7, rfl, ready, shows, rfl⟩

end Delivery

end NetPool
