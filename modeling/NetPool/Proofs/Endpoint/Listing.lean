import Mathlib.Data.List.Induction
import Mathlib.Data.List.Sort
import NetPool.Endpoint.Registry
import NetPool.Proofs.Endpoint.View
import NetPool.Proofs.Keys
import NetPool.Proofs.Store.Supplied

/-! The peers that a view knows beside those that a registry lists. A record that is no peer's and is put
over a known peer's does not take the peer from the view; a snapshot does, and the registry leaves it out. -/

namespace NetPool

open PeerView

/-- What a view has been told, and the keys under which a known peer has been written over by what is no
peer's record. -/
structure Account where
  view : PeerView
  overwritten : String → Bool

namespace Account

def event (a : Account) (e : Event) : Account where
  view := a.view.learn e
  overwritten k := if k = e.entry.key then
    decide (e.change = .put) && (a.view.peer? e.entry).isNone && (a.view.find? k).isSome else a.overwritten k

def update (a : Account) : Update → Account
  | .snapshot entries => ⟨a.view.learnAll (.snapshot entries), fun _ => false⟩
  | .events events => events.foldl event a

end Account

namespace EndpointRegistry

variable (r : EndpointRegistry)

/-- A view of the same node that has been told nothing. -/
def view : PeerView := { layout := r.layout, identity := r.identity }

def scope : Scope := .under r.layout.endpointStart

def account (os : List Observation) : Account :=
  os.foldl (fun a o => a.update o.update) ⟨r.view, fun _ => false⟩

/-- A view that has handled the updates in turn, whatever became of the changes; meanwhile devices may have
been said to be ready. -/
inductive Handled : List Observation → PeerView → Prop
  | new : Handled [] r.view
  | handled {os v o w} (before : Handled os v) (yields : (v.handle o.update).Yields w) :
      Handled (os ++ [o]) w
  | ready {os v device w} (before : Handled os v) (yields : (v.deviceReady device).Yields w) :
      Handled os w

/-- What the registry lists for a device, on what the store holds. -/
def lists (s : Store) (device : String) (found : List Endpoint) : Prop :=
  (r.peers device).outcome.run Store.reply { s with available := true } =
    some (.ok found, { s with available := true })

end EndpointRegistry

namespace Account

variable {r : EndpointRegistry} {a : Account} {g : View}

/-- What is known under a key beside what stands there: the peer, if it is one, or a peer that has been
written over. -/
inductive Agrees (r : EndpointRegistry) : Bool → Option Endpoint → Option KeyValue → Prop
  | clear (held : Option KeyValue) : Agrees r false (held.bind r.view.peer?) held
  | overwritten (p : Endpoint) {e : KeyValue} (other : r.view.peer? e = none) : Agrees r true (some p) (some e)

/-- An account beside what the scope holds. -/
structure Faithful (r : EndpointRegistry) (a : Account) (g : View) : Prop where
  layout : a.view.layout = r.layout
  identity : a.view.identity = r.identity
  ascending : Ascending a.view.known
  agrees : ∀ k, Agrees r (a.overwritten k) (a.view.find? k) (g k)

theorem Faithful.peer? (faithful : Faithful r a g) : a.view.peer? = r.view.peer? := by
  funext e
  unfold PeerView.peer?
  rw [faithful.layout, faithful.identity]
  rfl

theorem Faithful.event (faithful : Faithful r a g) (e : Event) : Faithful r (a.event e) (e.onto g) := by
  refine ⟨(learn_self a.view e).1.trans faithful.layout, (learn_self a.view e).2.trans faithful.identity,
    learn_ascending faithful.ascending e, fun k => ?_⟩
  simp only [Account.event, find?_learn, Event.onto, faithful.peer?]
  by_cases here : k = e.entry.key
  · simp only [if_pos here]
    cases e.change with
    | delete => exact .clear none
    | put =>
      cases peer : r.view.peer? e.entry with
      | some p =>
        have clear := Agrees.clear (r := r) (some e.entry)
        rw [Option.bind_some, peer] at clear
        simpa using clear
      | none =>
        cases known : a.view.find? k with
        | some p => simpa using Agrees.overwritten p peer
        | none =>
          have clear := Agrees.clear (r := r) (some e.entry)
          rw [Option.bind_some, peer] at clear
          simpa using clear
  · simp only [if_neg here]
    exact faithful.agrees k

theorem Faithful.update (faithful : Faithful r a g) {o : Observation} (sorted : o.Sorted) :
    Faithful r (a.update o.update) (o.update.onto g) := by
  cases update : o.update with
  | snapshot entries =>
    refine ⟨faithful.layout, faithful.identity, fresh_ascending a.view entries, fun k => ?_⟩
    have found : (a.view.learnAll (.snapshot entries)).find? k =
        (entries.find? (·.key = k)).bind a.view.peer? := find?_fresh (sorted entries update) k
    change Agrees r false ((a.view.learnAll (.snapshot entries)).find? k) (entries.find? (·.key = k))
    rw [found, faithful.peer?]
    exact .clear _
  | events events =>
    change Faithful r (events.foldl Account.event a) (events.foldl (fun v e => e.onto v) g)
    clear sorted update
    induction events generalizing a g with
    | nil => exact faithful
    | cons e rest ih => exact ih (faithful.event e)

theorem update_view (a : Account) (u : Update) : (a.update u).view = a.view.learnAll u := by
  cases u with
  | snapshot entries => rfl
  | events events =>
    change (events.foldl Account.event a).view = events.foldl learn a.view
    induction events generalizing a with
    | nil => rfl
    | cons e rest ih => exact ih (a.event e)

end Account

namespace EndpointRegistry

variable {r : EndpointRegistry} {os : List Observation} {o : Observation} {v : PeerView} {l : Lived}

theorem account_append (r : EndpointRegistry) (os : List Observation) (o : Observation) :
    r.account (os ++ [o]) = (r.account os).update o.update := by
  rw [account, List.foldl_append]
  rfl

/-- What the view knows is what it has been told. -/
theorem Handled.kept (handled : r.Handled os v) : Kept (r.account os).view v := by
  induction handled with
  | new => exact .refl _
  | handled _ yields ih =>
    rw [account_append, Account.update_view]
    exact (ih.learnAll _).trans (handle_kept yields)
  | ready _ yields ih => exact ih.trans (deviceReady_kept yields)

theorem account_faithful (sorted : ∀ o ∈ os, o.Sorted) :
    Account.Faithful r (r.account os) (Feeding.told os) := by
  induction os using List.reverseRecOn with
  | nil => exact ⟨rfl, rfl, .nil, fun k => .clear none⟩
  | append_singleton os o ih =>
    rw [account_append, Feeding.told_append]
    have before := ih fun a mem => sorted a (List.mem_append_left _ mem)
    exact before.update (sorted o (List.mem_append_right _ List.mem_cons_self))

/-! The listing. -/

/-- The peers among what the store holds, by their keys. -/
def held (r : EndpointRegistry) (s : Store) : List (String × Endpoint) :=
  s.entries.filterMap fun e => (r.view.peer? e).map (e.key, ·)

theorem ofEntry_device {e : KeyValue} {p : Endpoint} (read : Endpoint.ofEntry r.layout e = .ok p)
    (device : String) : startsWith e.key (r.layout.deviceStart device) = true ↔ p.device = device := by
  unfold Endpoint.ofEntry at read
  split at read
  · cases read
  · rename_i d a key
    cases decoded : ClaimRecord.decode e.key e.value with
    | error => rw [decoded] at read; cases read
    | ok record =>
      rw [decoded] at read
      cases read
      exact KeyLayout.parseEndpointKey_device key device

theorem peersIn_eq (r : EndpointRegistry) (s : Store) (device : String) :
    r.peersIn (s.entries.filter (startsWith ·.key (r.layout.deviceStart device))) =
      ((r.held s).map (·.2)).filter (·.device = device) := by
  simp only [peersIn, decodeClaims, held, List.filterMap_filter, List.filter_filterMap,
    List.map_filterMap]
  congr 1
  funext e
  cases read : Endpoint.ofEntry r.layout e with
  | error failure => simp [PeerView.peer?, view, read, Except.toOption]
  | ok p =>
    have same : startsWith e.key (r.layout.deviceStart device) = decide (p.device = device) := by
      rw [Bool.eq_iff_iff, ofEntry_device read, decide_eq_true_iff]
    by_cases here : p.device = device <;> by_cases mine : p.owner = r.identity <;>
      simp [PeerView.peer?, view, read, same, here, mine, Except.toOption, Option.filter]

theorem peers_run (r : EndpointRegistry) {s : Store} (asc : Store.Ascending s.entries)
    (available : s.available = true) (device : String) : (r.peers device).outcome.run Store.reply s =
      some (.ok (((r.held s).map (·.2)).filter (·.device = device)), s) := by
  have range := Store.range_of_available asc available (r.layout.deviceStart device)
  have peers : (r.peers device).outcome = Program.ask (.store (.range (r.layout.deviceStart device)))
      (Program.onwardStored fun found => .pure (.ok (r.peersIn found.entries))) := by
    change Program.ask _ _ = Program.ask _ _
    congr 1
    funext x
    cases x <;> rfl
  rw [← peersIn_eq, peers]
  simp only [Program.run, Store.reply, Store.serve, range]
  rfl

theorem held_ascending (r : EndpointRegistry) {s : Store} (asc : Store.Ascending s.entries) :
    Ascending (r.held s) := by
  refine List.Pairwise.filterMap _ (fun e f less a mem b mem' => ?_) asc
  obtain ⟨p, _, rfl⟩ := Option.map_eq_some_iff.1 mem
  obtain ⟨q, _, rfl⟩ := Option.map_eq_some_iff.1 mem'
  exact less

theorem mem_held (r : EndpointRegistry) {s : Store} (asc : Store.Ascending s.entries) {k : String}
    {p : Endpoint} : (k, p) ∈ r.held s ↔ (s.find? k).bind r.view.peer? = some p := by
  simp only [held, List.mem_filterMap, Option.map_eq_some_iff, Option.bind_eq_some_iff,
    Store.find?_eq_some_iff asc, Prod.mk.injEq]
  constructor
  · rintro ⟨e, mem, q, peer, rfl, rfl⟩
    exact ⟨e, ⟨mem, rfl⟩, peer⟩
  · rintro ⟨e, ⟨mem, rfl⟩, peer⟩
    exact ⟨e, mem, p, peer, rfl, rfl⟩

theorem covers_of_peer {e : KeyValue} {p : Endpoint} (peer : r.view.peer? e = some p) :
    r.scope.covers e.key = true := by
  unfold PeerView.peer? Endpoint.ofEntry at peer
  cases read : r.layout.parseEndpointKey e.key with
  | none => simp [view, read] at peer
  | some slot => exact KeyLayout.parseEndpointKey_start read

/-- The registry lists what is known and has not been written over. -/
theorem held_eq {s : Store} (asc : Store.Ascending s.entries) {a : Account}
    (faithful : Account.Faithful r a (r.scope.part s.find?)) :
    r.held s = a.view.known.filter fun x => ! a.overwritten x.1 := by
  have irreflexive : Std.Irrefl fun x y : String × Endpoint => x.1 < y.1 := ⟨fun x => String.lt_irrefl x.1⟩
  refine List.Pairwise.eq_of_mem_iff (held_ascending r asc) (faithful.ascending.filter _) fun ⟨k, p⟩ => ?_
  rw [mem_held r asc, List.mem_filter, mem_known faithful.ascending]
  have covered : (s.find? k).bind r.view.peer? = (r.scope.part s.find? k).bind r.view.peer? := by
    unfold Scope.part
    split
    · rfl
    · rename_i outside
      cases found : s.find? k with
      | none => rfl
      | some e =>
        cases peer : r.view.peer? e with
        | none => exact peer
        | some q => exact absurd (Store.find?_key found ▸ covers_of_peer peer) outside
  rw [covered]
  have agrees := faithful.agrees k
  generalize a.overwritten k = overwritten at agrees ⊢
  generalize a.view.find? k = known at agrees ⊢
  generalize r.scope.part s.find? k = stands at agrees ⊢
  cases agrees with
  | clear => simp
  | overwritten q other => simp [other]

/-! A view beside the registry. -/

theorem lists_eq {s : Store} (asc : Store.Ascending s.entries) (device : String) :
    r.lists s device (((r.held s).map (·.2)).filter (·.device = device)) :=
  peers_run r (s := { s with available := true }) asc rfl device

theorem lists_unique {s : Store} {device : String} {found other : List Endpoint}
    (one : r.lists s device found) (two : r.lists s device other) : found = other := by
  have same := one.symm.trans two
  simpa using same

/-- Under a key that has been written over, a record that is no peer's stands. -/
theorem stands_of_over {s : Store} {a : Account} (faithful : Account.Faithful r a (r.scope.part s.find?))
    {k : String} (overwritten : a.overwritten k = true) :
    ∃ p e, a.view.find? k = some p ∧ s.find? k = some e ∧
      e.key = k ∧ r.view.peer? e = none := by
  have agrees := faithful.agrees k
  rw [overwritten] at agrees
  generalize known : a.view.find? k = x at agrees
  generalize stands : r.scope.part s.find? k = y at agrees
  cases agrees with
  | overwritten p other =>
    unfold Scope.part at stands
    split at stands
    · exact ⟨p, _, rfl, stands, Store.find?_key stands, other⟩
    · cases stands

/-- If the registry lists as many peers as are known, none has been written over. -/
theorem clear_of_lists {a : Account} {known : List (String × Endpoint)} {k : String} {p : Endpoint}
    (same : ((known.filter fun x => ! a.overwritten x.1).map (·.2)).filter (·.device = p.device) =
      (known.map (·.2)).filter (·.device = p.device)) (mem : (k, p) ∈ known) : a.overwritten k = false := by
  rw [List.filter_map, List.filter_map] at same
  have all := congrArg List.length same
  rw [List.length_map, List.length_map] at all
  have kept := List.filter_sublist.filter _ |>.eq_of_length all
  have here : (k, p) ∈ known.filter ((fun q : Endpoint => decide (q.device = p.device)) ∘ fun x => x.2) :=
    List.mem_filter.2 ⟨mem, by simp⟩
  rw [← kept] at here
  simpa using (List.mem_filter.1 (List.mem_filter.1 here).1).2

/-- On what the store held at the cursor of the last update, the registry lists no peer that the view does
not know, and in the same order. A peer that only the view knows has a record that has been put over by one
that is no peer's and still stands; and the two agree on all devices unless there is such a record. -/
theorem peers_beside_registry (supplied : Supplied r.scope l (os ++ [o]))
    (handled : r.Handled (os ++ [o]) v) : (∃ s ∈ l.seen, s.revision = o.cursor) ∧
    ∀ s ∈ l.seen, s.revision = o.cursor →
      (∀ device, ∃ found, r.lists s device found ∧ found.Sublist (v.peers device) ∧
        ∀ p ∈ v.peers device, p ∉ found → ∃ e, s.find? e.key = some e ∧ v.find? e.key = some p ∧
          r.view.peer? e = none ∧ (r.account (os ++ [o])).overwritten e.key = true) ∧
      ((∀ device, r.lists s device (v.peers device)) ↔ ∀ k, (r.account (os ++ [o])).overwritten k = false) := by
  obtain ⟨right, supply⟩ := supplied.right
  obtain ⟨known, exact⟩ := (supply.held os o (List.prefix_refl _)).exact right
  refine ⟨known, fun s seen revision => ?_⟩
  have asc := supply.ordered s seen
  have faithful := account_faithful (r := r) supply.sorted
  rw [exact s seen revision] at faithful
  have kept := handled.kept
  generalize r.account (os ++ [o]) = a at faithful kept ⊢
  have held : r.held s = v.known.filter fun x => ! a.overwritten x.1 := by
    rw [held_eq asc faithful, kept.known]
  have ascending : Ascending v.known := kept.known.symm ▸ faithful.ascending
  refine ⟨fun device => ⟨_, lists_eq asc device, ?_, fun p mem out => ?_⟩, fun same k => ?_,
    fun clear device => ?_⟩
  · rw [held]
    exact (List.filter_sublist.map _).filter _
  · obtain ⟨⟨k, here⟩, rfl⟩ := mem_peers.1 mem
    have overwritten : a.overwritten k = true := by
      by_contra clear
      refine out (List.mem_filter.2 ⟨List.mem_map.2 ⟨(k, p), ?_, rfl⟩, by simp⟩)
      rw [held]
      exact List.mem_filter.2 ⟨here, by simpa using clear⟩
    obtain ⟨_, e, _, stands, rfl, other⟩ := stands_of_over faithful overwritten
    exact ⟨e, stands, (mem_known ascending).1 here, other, overwritten⟩
  · by_contra overwritten
    obtain ⟨p, e, found, _⟩ := stands_of_over faithful (by simpa using overwritten)
    have lists := lists_unique (lists_eq asc p.device) (same p.device)
    rw [held] at lists
    exact overwritten (clear_of_lists lists ((mem_known ascending).2 ((kept.find? k).trans found)))
  · have all : v.known.filter (fun x => ! a.overwritten x.1) = v.known :=
      List.filter_eq_self.2 fun x _ => by simp [clear]
    have lists := lists_eq (r := r) asc device
    rw [held, all] at lists
    exact lists

/-! A view that is told of one peer by a snapshot, and then of a put under a key. -/

def mine : EndpointRegistry := ⟨.standard, "me"⟩

def slot (a : Address) : String := mine.layout.endpointKey "vx0" a

def owned (owner : String) : Bytes := (ClaimRecord.ofOwner owner).encode

def first : KeyValue := ⟨slot 0x0A000002, owned "one", 1, 1⟩

/-- The store after both puts. -/
def stored (next : KeyValue) : Store :=
  (((Store.empty 10).serve (.put (slot 0x0A000002) (owned "one"))).2.serve (.put next.key next.value)).2

/-- A snapshot of the first record, and an event that puts another one. -/
def putAfter (next : KeyValue) : List Observation :=
  [⟨.snapshot [first], 1⟩] ++ [⟨.events [⟨.put, next, 2⟩], 2⟩]

def accepting (_ : Unit) : (r : Request) → Option (r.Answer × Unit)
  | .apply _ => some (.ok (), ())
  | _ => none

/-- What a view knows on a device once it has handled both. -/
def knows (next : KeyValue) (device : String) : Option (List Endpoint) :=
  (((mine.view.handle (.snapshot [first])).bind fun v => v.handle (.events [⟨.put, next, 2⟩])).run
    accepting ()).map fun x => x.1.peers device

theorem handled_of_knows (next : KeyValue) {device : String} {known : List Endpoint}
    (knows : knows next device = some known) :
    ∃ v, mine.Handled (putAfter next) v ∧ v.peers device = known := by
  obtain ⟨⟨w, u⟩, run, rfl⟩ := Option.map_eq_some_iff.1 knows
  obtain ⟨v, one, two⟩ := Program.yields_bind (Program.run_yields run)
  exact ⟨w, (Handled.new.handled (o := ⟨.snapshot [first], 1⟩) one).handled
    (o := ⟨.events [⟨.put, next, 2⟩], 2⟩) two, rfl⟩

theorem supplied_of_watch (next : KeyValue)
    (watch : (stored next).serve (.watch mine.scope 1) = (some (.ok ⟨[⟨.put, next, 2⟩], 2⟩), stored next)) :
    ∃ l, Supplied mine.scope l (putAfter next) ∧ stored next ∈ l.seen := by
  have c0 : Consumer.Polled mine.scope 10 _ _ := .start
  have c1 := c0.moved (.serve _ (.put (slot 0x0A000002) (owned "one")))
  have c2 := c1.step (.called _ rfl) nofun
  have c3 := c2.step (.answered _ rfl (.inl ⟨_, rfl, rfl⟩)) nofun
  have c4 := c3.took (o := ⟨.snapshot [first], 1⟩) rfl
  have c5 := c4.moved (.serve _ (.put next.key next.value))
  have c6 := c5.step (.called _ rfl) nofun
  have c7 := c6.step (.answered _ rfl (.inl ⟨_, watch, rfl⟩)) nofun
  have c8 := c7.took (o := ⟨.events [⟨.put, next, 2⟩], 2⟩) rfl
  exact ⟨_, .polled c8 (List.prefix_refl _), List.mem_cons_self⟩

def another : KeyValue := ⟨slot 0x0A000003, owned "two", 2, 2⟩

theorem two_peers_beside_registry : ∃ l v, Supplied mine.scope l (putAfter another) ∧
    mine.Handled (putAfter another) v ∧ stored another ∈ l.seen ∧
    v.peers "vx0" = [⟨"vx0", 0x0A000002, "one"⟩, ⟨"vx0", 0x0A000003, "two"⟩] ∧
    ∀ device, mine.lists (stored another) device (v.peers device) := by
  obtain ⟨l, supplied, seen⟩ := supplied_of_watch another rfl
  have both : knows another "vx0" =
      some [⟨"vx0", 0x0A000002, "one"⟩, ⟨"vx0", 0x0A000003, "two"⟩] := by decide +kernel
  obtain ⟨v, handled, peers⟩ := handled_of_knows another both
  have beside := (peers_beside_registry supplied handled).2 (stored another) seen rfl
  refine ⟨l, v, supplied, handled, seen, peers, beside.2.2 fun k => ?_⟩
  have peer : (mine.view.learnAll (.snapshot [first])).peer? another = some ⟨"vx0", 0x0A000003, "two"⟩ := by
    decide +kernel
  change (if k = another.key then decide (Change.put = Change.put) &&
    ((mine.view.learnAll (.snapshot [first])).peer? another).isNone && _ else false) = false
  rw [peer]
  split <;> rfl

def overwriting : KeyValue := ⟨slot 0x0A000002, Text.utf8 "garbage", 1, 2⟩

/-- What does not decode is put over the record of a peer: the view knows the peer on, the registry does not
list it any more. -/
theorem overwritten_peer_stays : ∃ l v, Supplied mine.scope l (putAfter overwriting) ∧
    mine.Handled (putAfter overwriting) v ∧ stored overwriting ∈ l.seen ∧
    (stored overwriting).revision = 2 ∧ v.peers "vx0" = [⟨"vx0", 0x0A000002, "one"⟩] ∧
    mine.lists (stored overwriting) "vx0" [] := by
  obtain ⟨l, supplied, seen⟩ := supplied_of_watch overwriting rfl
  have still : knows overwriting "vx0" = some [⟨"vx0", 0x0A000002, "one"⟩] := by decide +kernel
  obtain ⟨v, handled, peers⟩ := handled_of_knows overwriting still
  refine ⟨l, v, supplied, handled, seen, rfl, peers, ?_⟩
  have lists := lists_eq (r := mine) (supplied.right.2.ordered (stored overwriting) seen) "vx0"
  have none : ((mine.held (stored overwriting)).map (·.2)).filter (·.device = "vx0") = [] := by decide +kernel
  rwa [none] at lists

end EndpointRegistry

end NetPool
