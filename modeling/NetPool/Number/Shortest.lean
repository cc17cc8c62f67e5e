import NetPool.Number.Binary

/-! The shortest decimal that reads back as a floating-point number. -/

namespace NetPool.Number

/-- Decimal digits and the place of the point: `0.d₁d₂… * 10 ^ point`. -/
structure Decimal where
  digits : List Char
  point : Int

/-- Whether `d * 10 ^ e` reads back as the number. Quarters of its last place are counted; an end of
the interval belongs to it if the mantissa is even. -/
def Binary.covers (b : Binary) (d : Nat) (e : Int) : Bool :=
  let q := b.exponent - 2
  let m := 4 * b.mantissa
  let low := scaled (m - if b.narrow then 1 else 2) q d e
  let high := scaled (m + 2) q d e
  if b.mantissa % 2 = 0 then low.1 ≤ low.2 && high.2 ≤ high.1 else low.1 < low.2 && high.2 < high.1

/-- The nearer of the two neighbours on the grid of `10 ^ e` that read back, if one does. -/
def Binary.onGrid? (b : Binary) (tie : Tie) (e : Int) : Option Nat :=
  let (whole, unit) := scaled b.mantissa b.exponent 1 e
  let d := whole / unit
  let below := b.covers d e
  let above := b.covers (d + 1) e
  if below && above then some (tie.nearest whole unit)
  else if below then some d
  else if above then some (d + 1)
  else none

/-- Tries finer and finer grids, at most `fuel` of them. -/
def Binary.search (b : Binary) (tie : Tie) (e : Int) : Nat → Nat × Int
  | 0 => (b.mantissa, b.exponent)
  | fuel + 1 =>
    match b.onGrid? tie e with
    | some d => (d, e)
    | none => b.search tie (e - 1) fuel

/-- Places before the point, found from the size of the whole part or of its inverse. -/
def Binary.magnitude (b : Binary) : Int :=
  let (whole, unit) := scaled b.mantissa b.exponent 1 0
  if unit ≤ whole then (Nat.toDigits 10 (whole / unit)).length
  else 1 - ((Nat.toDigits 10 (unit / whole)).length : Int)

/-- The fewest digits that read back, nearest to the number where there is a choice. -/
def Binary.shortest (b : Binary) (tie : Tie) : Decimal :=
  if b.mantissa = 0 then ⟨['0'], 1⟩
  else
    let (d, e) := b.search tie b.magnitude 20
    let ds := Nat.toDigits 10 d
    let kept := (ds.reverse.dropWhile (· = '0')).reverse
    ⟨kept, ds.length + e⟩

/-- Digits with the point in its place, zeros filled in. -/
def Decimal.positional (d : Decimal) : List Char × List Char :=
  if d.point ≤ 0 then (['0'], List.replicate (-d.point).toNat '0' ++ d.digits)
  else
    let n := d.point.toNat
    (d.digits.take n ++ List.replicate (n - d.digits.length) '0', d.digits.drop n)

/-- One digit before the point, the rest behind it, and the power of ten. -/
def Decimal.scientific (d : Decimal) : List Char :=
  let rest := d.digits.drop 1
  let power := d.point - 1
  d.digits.take 1 ++ (if rest = [] then [] else '.' :: rest) ++ 'e' ::
    (if power < 0 then '-' :: Nat.toDigits 10 power.natAbs else Nat.toDigits 10 power.toNat)

structure Format where
  nan : String
  infinite : String
  /-- Whether a whole number still has a point. -/
  pointAlways : Bool
  /-- Numbers with the point outside these places are written with a power of ten. -/
  places : Option (Int × Int)
  /-- Which of two shortest decimals is written for a number halfway between them. -/
  tie : Tie

def Format.write (f : Format) (x : Float) : String :=
  let sign := if isNegative x then "-" else ""
  match Parts.ofFloat x with
  | .nan => f.nan
  | .infinite => sign ++ f.infinite
  | .finite b =>
    let d := b.shortest f.tie
    let outside := match f.places with
      | none => false
      | some (low, high) => d.point < low || high < d.point
    if outside then sign ++ String.ofList d.scientific
    else
      let (whole, places) := d.positional
      sign ++ String.ofList (whole ++
        if places ≠ [] then '.' :: places else if f.pointAlways then ['.', '0'] else [])

/-- As messages have it: always positional. -/
def plain : Format := ⟨"NaN", "inf", false, none, .up⟩

/-- As JSON has it: positional from 10^-5 up to below 10^16; what is no number is null. -/
def json : Format := ⟨"null", "null", true, some (-4, 16), .even⟩

/-- As TOML has it: always positional and with a point. -/
def toml : Format := ⟨"nan", "inf", true, none, .up⟩

end NetPool.Number
