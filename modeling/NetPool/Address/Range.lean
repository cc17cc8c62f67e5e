import NetPool.Address.Basic

/-! Inclusive address ranges. -/

namespace NetPool

open Text

/-- The addresses from `start` through `stop`, at least one. -/
structure AddressRange where
  start : Address
  stop : Address
  ordered : start ≤ stop
deriving DecidableEq

namespace AddressRange

def single (a : Address) : AddressRange := ⟨a, a, UInt32.le_refl a⟩

def chars (r : AddressRange) : List Char := r.start.chars ++ '-' :: r.stop.chars

def text (r : AddressRange) : String := String.ofList r.chars

/-- The range between two bounds, refused when they are out of order. -/
def ofBounds (start stop : Address) : Except AddressError AddressRange :=
  if h : start ≤ stop then .ok ⟨start, stop, h⟩
  else .error (.range (start.text ++ "-" ++ stop.text))

/-- The range between two cursors that lie in the space in order. -/
def span (start stop : UInt64) : AddressRange :=
  let a := start.toUInt32
  let b := stop.toUInt32
  if h : a ≤ b then ⟨a, b, h⟩ else single a

def size (r : AddressRange) : UInt64 := r.stop.toUInt64 - r.start.toUInt64 + 1

def contains (r : AddressRange) (a : Address) : Bool := r.start ≤ a && a ≤ r.stop

def containsRange (r s : AddressRange) : Bool := r.start ≤ s.start && s.stop ≤ r.stop

def overlaps (r s : AddressRange) : Bool := r.start ≤ s.stop && s.start ≤ r.stop

def intersect (r s : AddressRange) : Option AddressRange :=
  let a := max r.start s.start
  let b := min r.stop s.stop
  if h : a ≤ b then some ⟨a, b, h⟩ else none

def less (r s : AddressRange) : Bool :=
  r.start < s.start || (r.start == s.start && r.stop < s.stop)

def atMost (r s : AddressRange) : Bool := !s.less r

/-- Reads `start-stop`; blanks around the text and around each bound are allowed. -/
def parse (s : String) : Except AddressError AddressRange :=
  match cut? '-' (trim s.toList) with
  | none => .error (.range s)
  | some (a, b) =>
    match Address.ofChars? (trim a), Address.ofChars? (trim b) with
    | some a, some b => ofBounds a b
    | _, _ => .error (.range s)

end AddressRange

end NetPool
