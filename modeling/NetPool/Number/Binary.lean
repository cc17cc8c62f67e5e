/-! Floating-point numbers taken apart: a whole number times a power of two. -/

namespace NetPool.Number

/-- A finite number without its sign: `mantissa * 2 ^ exponent`. -/
structure Binary where
  mantissa : Nat
  exponent : Int
  /-- The number below is only half as far away as the one above. -/
  narrow : Bool

inductive Parts
  | nan
  | infinite
  | finite (b : Binary)

def isNegative (x : Float) : Bool := x.toBits >>> 63 == 1

/-- The fractions of one power of two. -/
def fractions : Nat := 0x10000000000000

/-- What the bits of a number say, its sign apart. -/
def Parts.ofFloat (x : Float) : Parts :=
  let bits := x.toBits.toNat
  let fraction : Nat := bits % fractions
  let scale : Nat := bits / fractions % 0x800
  if scale = 0x7FF then if fraction = 0 then .infinite else .nan
  else if scale = 0 then .finite ⟨fraction, -1074, false⟩
  else .finite ⟨fraction + fractions, (scale : Int) - 1075, fraction = 0 ∧ 1 < scale⟩

/-- `a * 2 ^ q` against `b * 10 ^ e`, as two whole numbers to compare. -/
def scaled (a : Nat) (q : Int) (b : Nat) (e : Int) : Nat × Nat :=
  ((a * Nat.pow 10 (-e).toNat) <<< q.toNat, (b * Nat.pow 10 e.toNat) <<< (-q).toNat)

/-- Which of two whole numbers stands for the one halfway between them. -/
inductive Tie
  | up
  | even
deriving DecidableEq

/-- The whole number nearest to `a / b`. -/
def Tie.nearest (tie : Tie) (a b : Nat) : Nat :=
  let below := a / b
  let rest := 2 * (a % b)
  if rest < b then below
  else if b < rest then below + 1
  else match tie with
    | .up => below + 1
    | .even => below + below % 2

/-- The whole number nearest to the number times `10 ^ places`, and the even one halfway. -/
def Binary.count (b : Binary) (places : Nat) : Nat :=
  let (whole, unit) := scaled b.mantissa b.exponent 1 (-(places : Int))
  Tie.even.nearest whole unit

end NetPool.Number
