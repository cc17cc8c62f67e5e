import NetPool.Pool.Basic
import NetPool.Program

/-! Free space. Every allocator starts from the gaps that claims leave in a pool's bounds: the first
gap that holds a block, a free address by its index, the aligned subnets inside the gaps. -/

namespace NetPool.Search

/-- The gaps from a cursor through `last`, given the occupied ranges in order. -/
def gapsFrom (last cursor : UInt64) : List AddressRange → List AddressRange
  | [] => if cursor ≤ last then [.span cursor last] else []
  | claim :: rest =>
    if last < cursor then []
    else if claim.stop.toUInt64 < cursor then gapsFrom last cursor rest
    else
      let next := max cursor (claim.stop.toUInt64 + 1)
      if cursor < claim.start.toUInt64 then
        .span cursor (min (claim.start.toUInt64 - 1) last) :: gapsFrom last next rest
      else gapsFrom last next rest

/-- The gaps that occupied ranges, in any order, leave in `bounds` from `first` on. -/
def gaps (bounds : AddressRange) (first : UInt64) (occupied : List AddressRange) :
    List AddressRange :=
  gapsFrom bounds.stop.toUInt64 (max first bounds.start.toUInt64)
    (occupied.mergeSort AddressRange.atMost)

/-- The start of the earliest gap that holds a block of this size. -/
def firstFit (bounds : AddressRange) (first block : UInt64) (claimed : List AddressRange) :
    Option AddressRange :=
  ((gaps bounds first claimed).find? (block ≤ ·.size)).map fun gap =>
    .span gap.start.toUInt64 (gap.start.toUInt64 + block - 1)

/-- The free addresses of a pool: neither claimed nor reserved. -/
def freeAddresses (p : Pool) (claimed : List AddressRange) : List AddressRange :=
  gaps p.bounds p.firstCandidate (claimed ++ p.reserved.map .single)

def countFree (gaps : List AddressRange) : UInt64 := (gaps.map (·.size)).foldr (· + ·) 0

def nthFree : List AddressRange → UInt64 → Option Address
  | [], _ => none
  | gap :: rest, index =>
    if index < gap.size then offset? gap.start index else nthFree rest (index - gap.size)

/-- A free address by a draw among as many as there are. -/
def randomFree (gaps : List AddressRange) : Program (Option Address) :=
  match (countFree gaps).toNat with
  | 0 => .pure none
  | n + 1 => (Program.pick n).bind fun i => .pure (nthFree gaps (UInt64.ofNat i))

def everyFree (gaps : List AddressRange) : List Address :=
  let found := (List.range (countFree gaps).toNat).filterMap fun i => nthFree gaps (UInt64.ofNat i)
  (found.mergeSort (· ≤ ·)).eraseDups

/-- At most this many subnets are gathered for one choice. -/
def candidateLimit : Nat := 100

/-- At most `limit` subnets side by side from `start` on, none past `stop`. -/
def stride (length : Nat) (h : length ≤ 32) (stop : UInt64) : Nat → UInt64 → List Subnet
  | 0, _ => []
  | limit + 1, start =>
    if start + maskSize length - 1 ≤ stop then
      Subnet.around start.toUInt32 length h :: stride length h stop limit (start + maskSize length)
    else []

/-- At most `limit` subnets of a length in `bounds`, from `first` on, clear of the live ones. -/
def subnetCandidates (bounds : AddressRange) (first : UInt64) (length : Nat) (live : List Subnet)
    (limit : Nat) : List Subnet :=
  if h : length ≤ 32 then
    ((gaps bounds first (live.map (·.range))).flatMap fun gap =>
      stride length h gap.stop.toUInt64 limit
        (alignUp gap.start.toUInt64 (maskSize length))).take limit
  else []

end NetPool.Search
