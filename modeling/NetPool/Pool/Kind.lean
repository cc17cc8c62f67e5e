/-! The three ways a pool hands out its space. -/

namespace NetPool

inductive PoolKind
  /-- Blocks of one power-of-two size, first fit, under a lock. -/
  | range
  /-- One leased subnet for each node. -/
  | subnet
  /-- Single addresses, each tied to a workload. -/
  | fixed
deriving DecidableEq, Repr

namespace PoolKind

def text : PoolKind → String
  | .range => "range"
  | .subnet => "subnet"
  | .fixed => "fixed"

def parse? : String → Option PoolKind
  | "range" => some .range
  | "subnet" => some .subnet
  | "fixed" => some .fixed
  | _ => none

/-- The directory that holds the claims of this kind. -/
def directory : PoolKind → String
  | .range => "lease"
  | .subnet => "subnet"
  | .fixed => "fix"

end PoolKind

end NetPool
