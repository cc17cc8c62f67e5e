import NetPool.Proofs.Pin.Cleared
import NetPool.Proofs.Placed

/-! Calls that go by the claims they read. What they put or delete stands under the key that is built for
such a claim, which need not be the key that the claim was read from. -/

namespace NetPool

open KeyLayout

/-- The key of the one record that a request gets, puts or deletes. -/
def Request.about : Request → Option String
  | .store (.get key) => some key
  | .store (.put key _) => some key
  | .store (.delete key) => some key
  | _ => none

/-- Entries that are listed are known. -/
def lists (known : KeyValue → Prop) : (r : Request) → r.Answer → Prop
  | .store (.range _), .ok found => ∀ e ∈ found.entries, known e
  | _, _ => True

/-- The key is built for a name and a slot that were read from the key of a known entry. -/
def KeyLayout.Rebuilds (l : KeyLayout) (known : KeyValue → Prop) (key : String) : Prop :=
  ∃ e name s, known e ∧ l.Reads e.key name s ∧ key = l.slotKey name s

/-- A key that is rebuilt is read as nothing but what it was built for. -/
theorem KeyLayout.Rebuilds.built {l : KeyLayout} {known : KeyValue → Prop} {key name : String} {s : Slot}
    (rebuilds : l.Rebuilds known key) (read : l.Reads key name s) : key = l.slotKey name s := by
  obtain ⟨e, other, o, _, whole, rfl⟩ := rebuilds
  obtain ⟨rfl, rfl⟩ := read.eq (reads_slotKey (reads_iff.1 whole).1)
  rfl

theorem KeyLayout.rebuilds_block {l : KeyLayout} {known : KeyValue → Prop} {e : KeyValue} {c : RangeClaim}
    {key : String} (here : known e) (read : RangeClaim.ofEntry l e = .ok c)
    (slot : l.rangeKeyFor c.pool c.range = some key) : l.Rebuilds known key := by
  have parsed := ofEntry_parse read
  obtain ⟨b, range⟩ := block_of_parse parsed
  obtain ⟨n, rfl, size, _⟩ := rangeKeyFor_eq_some.1 slot
  rw [range] at parsed size ⊢
  cases (Nat.pow_right_inj Nat.one_lt_two).1 (size.symm.trans b.range_size)
  exact ⟨e, c.pool, .block b, here, parsed, rfl⟩

theorem KeyLayout.rebuilds_subnet {l : KeyLayout} {known : KeyValue → Prop} {e : KeyValue} {c : SubnetClaim}
    (here : known e) (read : SubnetClaim.ofEntry l e = .ok c) :
    l.Rebuilds known (l.subnetKey c.pool c.subnet) :=
  ⟨e, c.pool, .subnet c.subnet, here, (SubnetClaim.ofEntry_eq_ok.1 read).1, rfl⟩

theorem KeyLayout.rebuilds_fixed {l : KeyLayout} {known : KeyValue → Prop} {e : KeyValue} {c : FixedClaim}
    (here : known e) (read : FixedClaim.ofEntry l e = .ok c) :
    l.Rebuilds known (l.fixedKey c.pool c.address) :=
  ⟨e, c.pool, .fixed c.address, here, (FixedClaim.ofEntry_eq_ok.1 read).1, rfl⟩

/-- A request is about no record, or about one under a key that is rebuilt. -/
def Keeps (l : KeyLayout) (known : KeyValue → Prop) (_ : List Exchange) (r : Request) : Prop :=
  ∀ key, r.about = some key → l.Rebuilds known key

variable {h : List Exchange}

theorem Keeps.none {l : KeyLayout} {known : KeyValue → Prop} {r : Request} (none : r.about = none) :
    Keeps l known h r := by
  intro key some
  rw [none] at some
  cases some

theorem Keeps.some {l : KeyLayout} {known : KeyValue → Prop} {r : Request} {key : String}
    (some : r.about = some key) (rebuilds : l.Rebuilds known key) : Keeps l known h r := by
  intro other same
  cases some.symm.trans same
  exact rebuilds

/-- A call on a claim that was read, or that reads claims itself. -/
inductive ClaimCall
  | releaseBlock (a : BlockAllocator) (c : RangeClaim)
  | acquire (a : LeaseAllocator) (p : Pool) (owner : String) (previous : Option Subnet)
  | renew (a : LeaseAllocator) (c : SubnetClaim)
  | releaseLease (a : LeaseAllocator) (c : SubnetClaim)
  | releaseWorkload (a : PinAllocator) (p : Pool) (workload : String)
  | collect (a : PinAllocator) (p : Pool)

namespace ClaimCall

def layout : ClaimCall → KeyLayout
  | releaseBlock a _ => a.layout
  | acquire a _ _ _ => a.layout
  | renew a _ => a.layout
  | releaseLease a _ => a.layout
  | releaseWorkload a _ _ => a.layout
  | collect a _ => a.layout

/-- The claim that the call is given was read from a known entry. -/
def Given (known : KeyValue → Prop) : ClaimCall → Prop
  | releaseBlock a c => ∃ e, known e ∧ RangeClaim.ofEntry a.layout e = .ok c
  | renew a c => ∃ e, known e ∧ SubnetClaim.ofEntry a.layout e = .ok c
  | releaseLease a c => ∃ e, known e ∧ SubnetClaim.ofEntry a.layout e = .ok c
  | _ => True

/-- Answers that are allowed lead the call to this request. -/
def Asks (allowed : (r : Request) → r.Answer → Prop) (q : Request) : ClaimCall → Prop
  | releaseBlock a c => (a.release c).Asks allowed q
  | acquire a p owner previous => (a.acquire p owner previous).outcome.Asks allowed q
  | renew a c => (a.renew c).outcome.Asks allowed q
  | releaseLease a c => (a.release c).outcome.Asks allowed q
  | releaseWorkload a p workload => (a.release p workload).outcome.Asks allowed q
  | collect a p => (a.collect p).outcome.Asks allowed q

end ClaimCall

variable {known : KeyValue → Prop} {e : KeyValue}

/-! Blocks. -/

theorem BlockAllocator.release_keeps {a : BlockAllocator} {c : RangeClaim} (here : known e)
    (read : RangeClaim.ofEntry a.layout e = .ok c) :
    Safe (alone (lists known) (Keeps a.layout known)) (fun _ _ => True) (a.release c) h := by
  have passes {r : Request} {g : List Exchange} (kept : Keeps a.layout known g r) :
      Safe (alone (lists known) (Keeps a.layout known)) (fun _ _ => True)
        (discard (Program.request r)) g := by
    rintro _ rfl _ x _ ⟨_, rfl⟩
    exact ⟨trivial, kept, fun _ _ _ => trivial⟩
  have forgets (g : List Exchange) :
      Safe (alone (lists known) (Keeps a.layout known)) (fun _ _ => True) (a.forget c) g := by
    unfold forget
    split
    · exact passes (.none rfl)
    · exact fun _ _ _ => trivial
  rw [release_eq]
  rintro g rfl _ x _ ⟨_, rfl⟩
  refine ⟨trivial, Keeps.none (h := g) rfl, ?_⟩
  cases x with
  | error => exact forgets _
  | ok grant =>
    have deletes (g : List Exchange) :
        Safe (alone (lists known) (Keeps a.layout known)) (fun _ _ => True)
          ((a.layout.rangeKeyFor c.pool c.range).elim (.pure ()) fun key =>
            discard (Program.store (.delete key)) : Program Unit) g := by
      cases slot : a.layout.rangeKeyFor c.pool c.range with
      | none => exact fun _ _ _ => trivial
      | some key => exact passes (.some rfl (rebuilds_block here read slot))
    exact Safe.bind (deletes _) trivial fun _ g _ _ => Safe.bind (forgets g) trivial fun _ _ _ _ =>
      passes (.none rfl)

/-! Leases. -/

namespace LeaseAllocator

variable {a : LeaseAllocator} {c : SubnetClaim} {p : Pool} {owner : String} {previous : Option Subnet}

theorem keeps_acquiring : Acquiring a p owner previous (lists known) (Keeps a.layout known)
    (fun _ _ => known) fun _ c => ∃ e, known e ∧ SubnetClaim.ofEntry a.layout e = .ok c where
  clock _ := .none rfl
  sleeps _ _ := .none rfl
  picks _ _ := .none rfl
  lists _ _ := .none rfl
  reaps _ _ _ := .none rfl
  creates _ _ _ _ _ := .none rfl
  puts := by
    rintro h c value - ⟨e, here, read⟩
    exact .some rfl (rebuilds_subnet here read)
  listed _ _ _ fine := fine
  known_later _ _ _ _ here _ := here
  good_later _ _ _ good _ := good
  late _ _ e c here read _ := ⟨e, here, read⟩
  stands _ _ e c here read _ := ⟨e, here, read⟩

theorem renew_keeps (here : known e) (read : SubnetClaim.ofEntry a.layout e = .ok c) :
    Makes (lists known) (Keeps a.layout known) (fun _ _ => True) (a.renew c) h := by
  have rebuilds : a.layout.Rebuilds known (a.layout.subnetKey c.pool c.subnet) := rebuilds_subnet here read
  rw [renew_eq]
  refine Makes.stored (.some rfl rebuilds) fun found _ => ?_
  split
  · rw [write_eq]
    refine Makes.ask (.none rfl) fun now _ => ?_
    exact Makes.stored (.some rfl rebuilds) fun _ _ => Makes.result trivial
  · exact Makes.failure

theorem release_keeps (here : known e) (read : SubnetClaim.ofEntry a.layout e = .ok c) :
    Makes (lists known) (Keeps a.layout known) (fun _ _ => True) (a.release c) h := by
  have rebuilds : a.layout.Rebuilds known (a.layout.subnetKey c.pool c.subnet) := rebuilds_subnet here read
  rw [release_eq]
  refine Makes.stored (.some rfl rebuilds) fun found _ => ?_
  split
  · exact Makes.stored (.some rfl rebuilds) fun _ _ => Makes.result trivial
  · exact Makes.result trivial

end LeaseAllocator

/-! Single addresses. -/

namespace PinAllocator

variable {a : PinAllocator} {p : Pool}

/-- What goes through the claims of a pool acts on claims that were read from listed entries. -/
theorem each_keeps {β : Type} {f : β → FixedClaim → Operation β} {b : β}
    (each : ∀ b e c g, known e → FixedClaim.ofEntry a.layout e = .ok c →
      Makes (lists known) (Keeps a.layout known) (fun _ _ => True) (f b c) g) :
    Makes (lists known) (Keeps a.layout known) (fun _ _ => True)
      (a.claims p.name >>= fun claims => claims.foldlM f b : Operation β) h := by
  have still : (alone (lists known) (Keeps a.layout known)).Stable fun _ => True := fun _ _ => trivial
  rw [claims, Operation.readClaims_bind]
  refine Makes.stored (.none rfl) fun found fine => ?_
  refine (Safe.foldlM still (fun c mem b s _ _ => ?_) trivial trivial).weaken fun x _ _ _ => ?_
  · obtain ⟨e, here, read⟩ := mem_decodeClaims.1 mem
    exact (each b e c s (fine e here) read).weaken fun _ _ _ _ => trivial
  · cases x <;> trivial

theorem delete_keeps {β : Type} {c : FixedClaim} {f : Bool → Operation β} (here : known e)
    (read : FixedClaim.ofEntry a.layout e = .ok c) (returns : ∀ gone, ∃ x, f gone = (.pure (.ok x) : Program _)) :
    Makes (lists known) (Keeps a.layout known) (fun _ _ => True)
      (Operation.store (.delete (a.layout.fixedKey c.pool c.address)) >>= f : Operation β) h := by
  rw [Operation.store_bind]
  refine Makes.stored (.some rfl (rebuilds_fixed here read)) fun gone _ => ?_
  obtain ⟨x, same⟩ := returns gone
  rw [same]
  exact Makes.result trivial

theorem release_keeps {workload : String} :
    Makes (lists known) (Keeps a.layout known) (fun _ _ => True) (a.release p workload) h := by
  refine each_keeps fun b e c _ here read => ?_
  split
  · exact delete_keeps here read fun _ => ⟨_, rfl⟩
  · exact Makes.result trivial

theorem collect_keeps : Makes (lists known) (Keeps a.layout known) (fun _ _ => True) (a.collect p) h := by
  refine each_keeps fun n e c _ here read => Makes.ask (.none rfl) fun live _ => ?_
  cases live with
  | true => exact Makes.result trivial
  | false => exact delete_keeps here read fun gone => by cases gone <;> exact ⟨_, rfl⟩

end PinAllocator

/-- Whatever the calls are answered, as long as what they list is known: each record that they get, put or
delete stands under a key that is built for a known claim. -/
theorem ClaimCall.keeps {call : ClaimCall} {q : Request} (given : call.Given known)
    (asks : call.Asks (lists known) q) {key : String} (about : q.about = some key) :
    call.layout.Rebuilds known key := by
  have possible : ∃ x, lists known q x := by
    cases q with
    | store r =>
      have failed : lists known (.store r) (.error (.internal "")) := by cases r <;> trivial
      exact ⟨_, failed⟩
    | cache | chore | now | instant | sleep | pick | isLive | apply => cases about
  have kept : ∃ h, Keeps call.layout known h q := by
    cases call with
    | releaseBlock a c =>
      obtain ⟨e, here, read⟩ := given
      exact Makes.keeps_of_asks (BlockAllocator.release_keeps here read) asks possible
    | acquire a p owner previous =>
      exact Makes.keeps_of_asks (LeaseAllocator.acquire_makes LeaseAllocator.keeps_acquiring) asks possible
    | renew a c =>
      obtain ⟨e, here, read⟩ := given
      exact Makes.keeps_of_asks (LeaseAllocator.renew_keeps here read) asks possible
    | releaseLease a c =>
      obtain ⟨e, here, read⟩ := given
      exact Makes.keeps_of_asks (LeaseAllocator.release_keeps here read) asks possible
    | releaseWorkload a p workload =>
      exact Makes.keeps_of_asks PinAllocator.release_keeps asks possible
    | collect a p => exact Makes.keeps_of_asks PinAllocator.collect_keeps asks possible
  obtain ⟨_, kept⟩ := kept
  exact kept key about

namespace ClaimCall

/-- Whatever the root of the keys. A key is read as that of a name and a slot if the slot stands in it in any
of the ways in which it may be spelled; of these one is built, and there is always another. What the calls
get, put and delete stands under keys that are built for claims they have read. So they act on the record
that was read if its key is as it would be built; and on a record whose key is not, they never act. On a
store alone, releasing a workload and collecting take away what stands under the keys built for the claims
that are chosen, and tell whether that was anything. -/
theorem keep_to_built_keys (l : KeyLayout) :
    (∀ key name s, l.Reads key name s ↔ Named name ∧ ∃ t, s.Spelled t ∧ key = l.keyOf s.kind name t) ∧
    (∀ key name r, l.parseRangeKey key = some (name, r) → ∃ b : Block, r = b.range) ∧
    (∀ name s t, l.slotKey name s = l.keyOf s.kind name t ↔ t = s.chars) ∧
    (∀ name s, Named name → ∃ key, key ≠ l.slotKey name s ∧ l.Reads key name s) ∧
    (∀ known (call : ClaimCall) q key, call.layout = l → call.Given known → call.Asks (lists known) q →
      q.about = some key → l.Rebuilds known key ∧ ∀ name s, l.Reads key name s → key = l.slotKey name s) ∧
    ∀ (a : PinAllocator) (p : Pool) (workload : String) (live : String → Bool) (s : Store), a.layout = l →
      Store.Ascending s.entries → s.available = true →
      (∃ released t, (a.release p workload).outcome.run (Store.beside live) s = some (.ok released, t) ∧
        PinAllocator.Cleared l p.name (· = workload) s (released = true) t) ∧
      ∃ n t, (a.collect p).outcome.run (Store.beside live) s = some (.ok n, t) ∧
        PinAllocator.Cleared l p.name (live · = false) s (0 < n) t := by
  refine ⟨fun _ _ _ => reads_iff, fun _ _ _ => block_of_parse, fun _ _ _ => slotKey_eq_keyOf,
    fun _ s named => reads_otherwise named s, ?_, ?_⟩
  · rintro known call q key rfl given asks about
    have rebuilds := call.keeps given asks about
    exact ⟨rebuilds, fun _ _ => rebuilds.built⟩
  · rintro a p workload live s rfl asc available
    exact ⟨PinAllocator.release_clears asc available, PinAllocator.collect_clears asc available⟩

/-! An address that is pinned to a workload under a key without zeros before the number. -/

def unpadded : KeyValue where
  key := "ipshard/fix/green/167772161"
  value := ClaimRecord.encode { owner := "n1", workload := some "web" }
  created := 1
  modified := 1

def unpaddedStore : Store := { Store.empty 100 with revision := 1, entries := [unpadded] }

def pins : PinAllocator := { layout := .standard }

def greenPool : Pool := .covering "green" .fixed (.around 0x0A000000 29 (by decide))

theorem unpadded_pin_kept : Store.Ascending unpaddedStore.entries ∧ unpaddedStore.available = true ∧
    ∃ released t, (pins.release greenPool "web").outcome.run (Store.beside fun _ => true) unpaddedStore =
      some (.ok released, t) ∧ released ≠ true ∧ unpadded ∈ t.entries := by
  have asc : Store.Ascending unpaddedStore.entries := List.pairwise_singleton _ _
  obtain ⟨_, _, _, _, _, alone⟩ := keep_to_built_keys .standard
  obtain ⟨⟨released, t, run, cleared⟩, _⟩ := alone pins greenPool "web" (fun _ => true) unpaddedStore rfl asc rfl
  have unbuilt : ∀ e ∈ unpaddedStore.entries,
      ¬ PinAllocator.ClaimedBy .standard greenPool.name (· = "web") unpaddedStore.entries e.key := by
    rintro e mem ⟨d, here, c, read, _, _, slot⟩
    cases List.mem_singleton.1 mem
    cases List.mem_singleton.1 here
    have parsed : standard.parseFixedKey unpadded.key = some ("green", 0x0A000001) := by decide
    obtain ⟨pool, address⟩ := Prod.mk.inj (Option.some.inj
      ((FixedClaim.ofEntry_eq_ok.1 read).1.symm.trans parsed))
    rw [pool, address] at slot
    exact absurd slot (by decide)
  refine ⟨asc, rfl, released, t, run, fun any => ?_, (cleared.left unpadded).2 ⟨List.mem_cons_self, ?_⟩⟩
  · obtain ⟨e, mem, claimed⟩ := cleared.told.1 any
    exact unbuilt e mem claimed
  · exact unbuilt unpadded List.mem_cons_self

/-- It is read as that of the address, as is the key that is built, and stays when the workload is
released. -/
theorem unpadded_pin_stays : standard.parseFixedKey unpadded.key = some ("green", 0x0A000001) ∧
    standard.parseFixedKey (standard.fixedKey "green" 0x0A000001) = some ("green", 0x0A000001) ∧
    standard.fixedKey "green" 0x0A000001 ≠ unpadded.key ∧
    (pins.release greenPool "web").outcome.run (Store.beside fun _ => true) unpaddedStore =
      some (.ok false, unpaddedStore) := by
  refine ⟨by decide, by decide, by decide, ?_⟩
  rfl

end ClaimCall

end NetPool
