import NetPool.Text.Bytes
import NetPool.Text.Decimal

/-! What a coordination store holds, answers and reports. Revisions count its writes. -/

namespace NetPool

def startsWith (s start : String) : Bool := start.toList.isPrefixOf s.toList

structure KeyValue where
  key : String
  value : Bytes
  /-- The revision at which the key came to be. -/
  created : Nat
  /-- The revision of its last write. -/
  modified : Nat
deriving DecidableEq

/-- The keys a read found, ascending, and the revision it saw. -/
structure Snapshot where
  entries : List KeyValue
  revision : Nat
deriving DecidableEq

inductive Change
  | put
  | delete
deriving DecidableEq

/-- One write. A deletion carries the state it removed. -/
structure Event where
  change : Change
  entry : KeyValue
  revision : Nat
deriving DecidableEq

/-- Events of one watch, and the highest revision they cover. -/
structure Batch where
  events : List Event
  revision : Nat
deriving DecidableEq

inductive Scope
  | key (k : String)
  | under (start : String)
deriving DecidableEq

namespace Scope

def covers : Scope → String → Bool
  | .key k, name => name == k
  | .under s, name => startsWith name s

def start : Scope → String
  | .key k => k
  | .under s => s

end Scope

inductive Creation
  | created (revision : Nat)
  | alreadyExists
deriving DecidableEq

/-- A named lock as handed to its holder. -/
structure Grant where
  name : String
  token : Nat
deriving DecidableEq

inductive StoreError
  | unavailable (reason : String)
  | timeout (operation : String) (milliseconds : Nat)
  | compacted (revision floor : Nat)
  | internal (reason : String)
deriving DecidableEq

namespace StoreError

open Text

def message : StoreError → String
  | .unavailable reason => "store unavailable: " ++ reason
  | .timeout operation ms => operation ++ " timed out after " ++ numeralText ms ++ "ms"
  | .compacted revision floor => "revision " ++ numeralText revision ++
      " has been compacted; compaction floor is " ++ numeralText floor
  | .internal reason => "internal store error: " ++ reason

/-- Worth another attempt. -/
def transient : StoreError → Bool
  | .unavailable _ | .timeout _ _ => true
  | _ => false

end StoreError

end NetPool
