import NetPool.Address.Subnet
import NetPool.Pool.Kind
import NetPool.Text.Decimal

/-! The keys of the store. A claim key names its pool and its slot alone, so two writers of one slot
meet on one key. Start addresses have ten digits, so keys stand in the order of the addresses.

    <root>/lease/<pool>/<start>-<exponent>   blocks
    <root>/subnet/<pool>/<a.b.c.d>-<length>  leased subnets
    <root>/fix/<pool>/<address>              single addresses
    <root>/vxlan/<device>/<a.b.c.d>          tunnel endpoints
    <root>/mutex/<directory>/<pool>          locks
-/

namespace NetPool

open Text

structure KeyLayout where
  root : String
deriving DecidableEq

namespace KeyLayout

/-- Slashes at the end of a root do not count. -/
def ofRoot (root : String) : KeyLayout where
  root := String.ofList (root.toList.reverse.dropWhile (· = '/')).reverse

def standard : KeyLayout := ofRoot "ipshard"

def rootStart (l : KeyLayout) : String := l.root ++ "/"

def kindStart (l : KeyLayout) (kind : PoolKind) : String := l.root ++ "/" ++ kind.directory ++ "/"

def claimStart (l : KeyLayout) (kind : PoolKind) (pool : String) : String :=
  l.kindStart kind ++ pool ++ "/"

/-- The lock that the writers of a pool take. -/
def mutex (l : KeyLayout) (kind : PoolKind) (pool : String) : String :=
  l.root ++ "/mutex/" ++ kind.directory ++ "/" ++ pool

def rangeKey (l : KeyLayout) (pool : String) (start : Address) (exponent : Nat) : String :=
  l.claimStart .range pool ++ String.ofList (padded 10 start.toNat ++ '-' :: numeral exponent)

/-- The key of a block; only a power of two has one. -/
def rangeKeyFor (l : KeyLayout) (pool : String) (r : AddressRange) : Option String :=
  (blockExponent r.size).map (l.rangeKey pool r.start)

def subnetKey (l : KeyLayout) (pool : String) (s : Subnet) : String :=
  l.claimStart .subnet pool ++ String.ofList (s.network.chars ++ '-' :: numeral s.length)

def fixedKey (l : KeyLayout) (pool : String) (a : Address) : String :=
  l.claimStart .fixed pool ++ String.ofList (padded 10 a.toNat)

def endpointStart (l : KeyLayout) : String := l.root ++ "/vxlan/"

def deviceStart (l : KeyLayout) (device : String) : String := l.endpointStart ++ device ++ "/"

def endpointKey (l : KeyLayout) (device : String) (a : Address) : String :=
  l.deviceStart device ++ a.text

def endpointMutex (l : KeyLayout) (device : String) : String := l.root ++ "/mutex/vxlan/" ++ device

/-- The pool and the slot in a claim key of a kind. -/
def claimParts? (l : KeyLayout) (kind : PoolKind) (key : String) :
    Option (List Char × List Char) := do
  let rest ← (l.kindStart kind).toList.isPrefixOf? key.toList
  let (pool, slot) ← cut? '/' rest
  guard (pool ≠ [] ∧ slot ≠ [] ∧ '/' ∉ slot)
  return (pool, slot)

def block? (start exponent : Nat) : Option AddressRange :=
  if exponent ≤ 32 then
    (offset? (UInt32.ofNat start) (1 <<< UInt64.ofNat exponent - 1)).bind fun stop =>
      (AddressRange.ofBounds (UInt32.ofNat start) stop).toOption
  else none

def parseRangeKey (l : KeyLayout) (key : String) : Option (String × AddressRange) := do
  let (pool, slot) ← l.claimParts? .range key
  let (start, exponent) ← cut? '-' slot
  let r ← block? (← number? UInt32.size start) (← number? 256 exponent)
  return (String.ofList pool, r)

def parseSubnetKey (l : KeyLayout) (key : String) : Option (String × Subnet) := do
  let (pool, slot) ← l.claimParts? .subnet key
  let (a, length) ← cutLast? '-' slot
  let s ← (Subnet.make (← Address.ofChars? (trim a)) (← number? 256 length)).toOption
  return (String.ofList pool, s)

def parseFixedKey (l : KeyLayout) (key : String) : Option (String × Address) := do
  let (pool, slot) ← l.claimParts? .fixed key
  return (String.ofList pool, UInt32.ofNat (← number? UInt32.size slot))

def parseEndpointKey (l : KeyLayout) (key : String) : Option (String × Address) := do
  let rest ← l.endpointStart.toList.isPrefixOf? key.toList
  let (device, a) ← cut? '/' rest
  guard (device ≠ [])
  return (String.ofList device, ← Address.ofChars? (trim a))

end KeyLayout

end NetPool
