import NetPool.Address.Range

/-! Subnets: a network address with its host bits clear, and a mask length. -/

namespace NetPool

open Text

structure Subnet where
  network : Address
  length : Nat
  length_le : length ≤ 32
  canonical : network &&& mask length = network
deriving DecidableEq

namespace Subnet

def around (a : Address) (length : Nat) (h : length ≤ 32) : Subnet where
  network := a &&& mask length
  length := length
  length_le := h
  canonical := by rw [UInt32.and_assoc, UInt32.and_self]

def make (a : Address) (length : Nat) : Except AddressError Subnet :=
  if h : length ≤ 32 then .ok (around a length h) else .error (.length (numeralText length))

def size (s : Subnet) : UInt64 := maskSize s.length

def last (s : Subnet) : Address := s.network ||| ~~~mask s.length

theorem network_le_last (s : Subnet) : s.network ≤ s.last := by
  simpa [last, UInt32.le_iff_toNat_le] using Nat.left_le_or

def range (s : Subnet) : AddressRange := ⟨s.network, s.last, s.network_le_last⟩

def contains (s : Subnet) (a : Address) : Bool := a &&& mask s.length == s.network

def containsSubnet (s t : Subnet) : Bool := s.length ≤ t.length && s.contains t.network

def overlaps (s t : Subnet) : Bool := s.range.overlaps t.range

/-- The following subnet of the same length, if the space reaches that far. -/
def next (s : Subnet) : Option Subnet :=
  (offset? s.network s.size).map fun a => around a s.length s.length_le

def less (s t : Subnet) : Bool :=
  s.network < t.network || (s.network == t.network && s.length < t.length)

def atMost (s t : Subnet) : Bool := !t.less s

def text (s : Subnet) : String := s.network.text ++ "/" ++ numeralText s.length

/-- Reads `address/length`; blanks around the text and around the address are allowed. -/
def parse (s : String) : Except AddressError Subnet :=
  match cut? '/' (trim s.toList) with
  | none => .error (.subnet s)
  | some (a, length) =>
    match Address.ofChars? (trim a) with
    | none => .error (.address (String.ofList a))
    | some address =>
      match number? 256 length with
      | none => .error (.length (String.ofList length))
      | some n => make address n

end Subnet

end NetPool
