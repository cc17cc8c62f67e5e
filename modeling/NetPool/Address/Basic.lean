import NetPool.Text.Blank
import NetPool.Text.Cut
import NetPool.Text.Decimal

/-! IPv4 addresses: dotted text, masks, sizes, offsets. Sizes and cursors are 64-bit words, so the
whole space (2^32 addresses) and one past its end fit. -/

namespace NetPool

open Text

abbrev Address := UInt32

/-- Why a text is no address, length, range or subnet; each keeps the text at fault. -/
inductive AddressError
  | address (text : String)
  | length (text : String)
  | range (text : String)
  | subnet (text : String)
deriving DecidableEq, Repr

def AddressError.message : AddressError → String
  | .address s => "invalid IPv4 address: " ++ s
  | .length s => "invalid prefix length: " ++ s
  | .range s => "invalid address range: " ++ s
  | .subnet s => "invalid subnet: " ++ s

def spaceSize : UInt64 := 4294967296

/-- The network mask of a length; lengths above 32 count as 32. -/
def mask (length : Nat) : Address :=
  if length = 0 then 0
  else if 32 ≤ length then 0xFFFFFFFF
  else 0xFFFFFFFF <<< UInt32.ofNat (32 - length)

/-- Addresses under a mask of this length. -/
def maskSize (length : Nat) : UInt64 := 1 <<< UInt64.ofNat (32 - min length 32)

/-- The address `offset` past `base`, if the space reaches that far. -/
def offset? (base : Address) (offset : UInt64) : Option Address :=
  if base.toNat + offset.toNat < UInt32.size then some (base + offset.toUInt32) else none

/-- The next multiple of a power of two. -/
def alignUp (value alignment : UInt64) : UInt64 :=
  if alignment ≤ 1 then value else (value + alignment - 1) &&& ~~~(alignment - 1)

/-- The exponent of a block size: a power of two within the space. -/
def blockExponent (size : UInt64) : Option Nat :=
  if size = 0 ∨ size &&& (size - 1) ≠ 0 ∨ spaceSize < size then none else some size.toNat.log2

namespace Address

def octets (a : Address) : List Nat :=
  let n := a.toNat
  [n / 0x1000000, n / 0x10000 % 256, n / 0x100 % 256, n % 256]

def ofOctets (a b c d : Nat) : Address :=
  UInt32.ofNat (a * 0x1000000 + b * 0x10000 + c * 0x100 + d)

def chars (a : Address) : List Char :=
  List.intercalate ['.'] (a.octets.map numeral)

def text (a : Address) : String := String.ofList a.chars

def octet? (s : List Char) : Option Nat :=
  if s.length ≤ 3 ∧ (s.head? = some '0' → s.length = 1) then (digits? s).filter (· < 256) else none

/-- Four bytes joined by dots, nothing around them. -/
def ofChars? (s : List Char) : Option Address := do
  let (a, s) ← cut? '.' s
  let (b, s) ← cut? '.' s
  let (c, d) ← cut? '.' s
  return ofOctets (← octet? a) (← octet? b) (← octet? c) (← octet? d)

/-- Reads a dotted address; blanks around it are allowed. -/
def parse (s : String) : Except AddressError Address :=
  match ofChars? (trim s.toList) with
  | some a => .ok a
  | none => .error (.address s)

end Address

end NetPool
