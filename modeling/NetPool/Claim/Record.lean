import NetPool.Failure
import NetPool.Json.Reader
import NetPool.Json.Writer

/-! The value stored under a claim key: an owner, and for some kinds a deadline or a workload. -/

namespace NetPool

open Json

structure ClaimRecord where
  owner : String
  /-- When the lease ends, in milliseconds. -/
  expiration : Option UInt64 := none
  workload : Option String := none
deriving DecidableEq

namespace ClaimRecord

def ofOwner (owner : String) : ClaimRecord := { owner }

/-- One member for each field that is there, in the order of the fields. -/
def toJson (r : ClaimRecord) : Value :=
  .obj ([("owner", .str r.owner)] ++
    (r.expiration.map fun e => ("expiration_ms", .nat e.toNat)).toList ++
    (r.workload.map fun w => ("workload", .str w)).toList)

def encode (r : ClaimRecord) : Bytes := Text.utf8 r.toJson.compact

/-- A field that `null` leaves out. -/
def optional (read : Value → Option α) : Value → Option (Option α)
  | .null => some none
  | v => (read v).map some

def deadline? (v : Value) : Option UInt64 := (v.nat? UInt64.size).map UInt64.ofNat

/-- The value under a name that occurs at most once. -/
def unique? (name : String) (members : List (Option String × Value)) : Option (Option Value) :=
  match members.filter (·.1 = some name) with
  | [] => some none
  | [m] => some (some m.2)
  | _ => none

def ofMembers? (members : List (Option String × Value)) : Option ClaimRecord := do
  guard (members.all (·.1.isSome))
  let owner ← (← unique? "owner" members).bind Value.text?
  let expiration ← optional deadline? ((← unique? "expiration_ms" members).getD .null)
  let workload ← optional Value.text? ((← unique? "workload" members).getD .null)
  return { owner, expiration, workload }

/-- A record as an object, or as a list of its fields of which the last two may be missing. -/
def ofJson? : Value → Option ClaimRecord
  | .record members => ofMembers? members
  | .list [owner] => do return { owner := ← owner.text? }
  | .list [owner, expiration] => do
    return { owner := ← owner.text?, expiration := ← optional deadline? expiration }
  | .list [owner, expiration, workload] => do
    return { owner := ← owner.text?, expiration := ← optional deadline? expiration
             workload := ← optional Value.text? workload }
  | _ => none

def decode? (value : Bytes) : Option ClaimRecord := (Value.ofBytes? value).bind ofJson?

def decode (key : String) (value : Bytes) : Except Failure ClaimRecord :=
  match decode? value with
  | some r => .ok r
  | none => .error (.codec key .malformedRecord)

end ClaimRecord

end NetPool
