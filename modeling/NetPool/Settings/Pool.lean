import NetPool.Pool.Basic
import NetPool.Settings.Tree

/-! Pool configurations read from settings. -/

namespace NetPool

open Setting

/-- A kind by its name, or as a table of one member whose value says nothing. -/
def PoolKind.ofSetting? (d : Dialect) : Setting → Option PoolKind
  | .text s => parse? s
  | .table [(name, v)] => if d.isVoid v then parse? name else none
  | _ => none

def PoolConfig.ofSetting? (d : Dialect) (s : Setting) : Option PoolConfig := do
  match ← s.fields? d ["name", "kind", "subnet", "range_start", "range_end", "gateway",
      "reserved_offset", "block_exp", "subnet_len", "previous_subnet"] with
  | [name, kind, subnet, rangeStart, rangeEnd, gateway, offset, blockExp, subnetLen, previous] =>
    return {
      name := ← needed text? name
      kind := ← needed (PoolKind.ofSetting? d) kind
      subnet := ← needed text? subnet
      rangeStart := ← optional text? rangeStart
      rangeEnd := ← optional text? rangeEnd
      gateway := ← optional text? gateway
      reservedOffset := UInt32.ofNat (← defaulted 0 (nat? UInt32.size) offset)
      blockExp := ← optional (nat? 256) blockExp
      subnetLen := ← optional (nat? 256) subnetLen
      previousSubnet := ← optional text? previous }
  | _ => none

def PoolConfig.ofJson? (v : Json.Value) : Option PoolConfig :=
  PoolConfig.ofSetting? json (Setting.ofJson v)

end NetPool
