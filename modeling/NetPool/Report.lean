import NetPool.Endpoint.Basic
import NetPool.Json.Token
import NetPool.Json.Writer
import NetPool.Node.Health
import NetPool.Pool.Basic
import NetPool.Reconcile.Basic
import NetPool.Store.Watch

/-! Pools, claims, nodes and what a store holds, as JSON records. -/

namespace NetPool.Report

open Json

/-- Further members of a record. -/
def and (v : Value) (more : List (String × Value)) : Value :=
  match v with
  | .record members => .record (members ++ more.map fun (name, v) => (some name, v))
  | v => v

def list (f : α → Value) (l : List α) : Value := .list (l.map f)

def word (x : UInt32) : Value := .nat x.toNat

def count (x : UInt64) : Value := .nat x.toNat

def address (a : Address) : Value := .str a.text

def range (r : AddressRange) : Value := .str r.text

def subnet (s : Subnet) : Value := .str s.text

/-- Bytes as the text they spell, or two digits for each. -/
def bytes (b : Bytes) : Value :=
  match Text.ofUtf8? b with
  | some s => .str s
  | none => .obj [("hex", .str (String.ofList (b.flatMap fun x =>
      [hexDigit (x.toNat / 16), hexDigit (x.toNat % 16)])))]

/-- The bytes that pairs of digits stand for. -/
def hexBytes? : List Char → Option Bytes
  | [] => some []
  | a :: b :: rest => do
    let x ← hexDigit? a.toNat.toUInt8
    let y ← hexDigit? b.toNat.toUInt8
    return UInt8.ofNat (x * 16 + y) :: (← hexBytes? rest)
  | _ => none

/-- Reads what `bytes` writes. -/
def bytes? : Value → Option Bytes
  | .text s => s.map Text.utf8
  | v => do hexBytes? (← (← v.member? "hex").text?).toList

def pool (p : Pool) : Value :=
  .obj [("name", .str p.name), ("kind", .str p.kind.text), ("key_dir", .str p.kind.directory),
    ("network", subnet p.network), ("bounds", range p.bounds),
    ("reserved_offset", word p.reservedOffset), ("reserved", list address p.reserved),
    ("gateway", .ofOption address p.gateway), ("block_exp", .nat p.blockExp),
    ("subnet_len", .nat p.subnetLen), ("block_size", count p.blockSize),
    ("first_candidate", count p.firstCandidate)]

def claim : Claim → Value
  | .range c => .obj [("kind", .str "range"), ("pool", .str c.pool), ("range", range c.range),
      ("owner", .str c.owner)]
  | .subnet c => .obj [("kind", .str "subnet"), ("pool", .str c.pool), ("subnet", subnet c.subnet),
      ("owner", .str c.owner), ("expiration_ms", count c.expiration)]
  | .fixed c => .obj [("kind", .str "fixed"), ("pool", .str c.pool), ("address", address c.address),
      ("owner", .str c.owner), ("workload", .str c.workload)]

def sync (r : SyncReport) : Value :=
  .obj [("pool", .str r.pool), ("kept", .nat r.kept), ("adopted", .nat r.adopted),
    ("replaced", .nat r.replaced), ("published", .nat r.published), ("dropped", .nat r.dropped),
    ("changed", .bool r.changed), ("text", .str r.text)]

def health (h : Health) : Value :=
  .obj [("store", .str h.store.text), ("reconciler", .str h.reconciler.text),
    ("leases", .str h.leases.text), ("endpoints", .str h.endpoints.text),
    ("ready", .bool h.ready), ("alive", .bool h.alive)]

def endpoint (e : Endpoint) : Value :=
  .obj [("device", .str e.device), ("address", address e.address), ("owner", .str e.owner)]

def peerChange (c : PeerChange) (refusal : Option Refusal) : Value :=
  let change := match c with
    | .added _ => "added"
    | .removed _ => "removed"
  and (endpoint c.endpoint)
    (("change", .str change) :: (refusal.map fun r => ("refused", .str r.message)).toList)

/-- Puts a zero for the digits after a mark, wherever it stands. -/
def zeroAfter (mark : List Char) : List Char → Nat → List Char
  | s, 0 => s
  | [], _ => []
  | c :: rest, fuel + 1 =>
    match mark.isPrefixOf? (c :: rest) with
    | some tail => mark ++ '0' :: zeroAfter mark (tail.dropWhile Char.isDigit) fuel
    | none => c :: zeroAfter mark rest fuel

/-- A record whose expiration is not to be seen. -/
def undated (e : KeyValue) : KeyValue :=
  match Text.ofUtf8? e.value with
  | none => e
  | some s =>
    let shown := zeroAfter "\"expiration_ms\":".toList s.toList s.length
    { e with value := Text.utf8 (String.ofList shown) }

def undatedUpdate : Update → Update
  | .snapshot entries => .snapshot (entries.map undated)
  | .events events => .events (events.map fun e => { e with entry := undated e.entry })

def undatedClaim : Claim → Claim
  | .subnet c => .subnet { c with expiration := 0 }
  | c => c

def entry (e : KeyValue) : Value :=
  .obj [("key", .str e.key), ("value", bytes e.value), ("create", .nat e.created),
    ("mod", .nat e.modified)]

def event (e : Event) : Value :=
  let change := match e.change with
    | .put => "put"
    | .delete => "delete"
  .obj [("type", .str change), ("rev", .nat e.revision), ("kv", entry e.entry)]

def observation (o : Observation) : Value :=
  .obj [("cursor", .nat o.cursor), match o.update with
    | .snapshot entries => ("snapshot", list entry entries)
    | .events events => ("events", list event events)]

end NetPool.Report
