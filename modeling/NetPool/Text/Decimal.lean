/-! Decimal numerals. -/

namespace NetPool.Text

def numeral (n : Nat) : List Char := Nat.toDigits 10 n

/-- A numeral filled up with zeros on the left. -/
def padded (width n : Nat) : List Char := (numeral n).leftpad width '0'

/-- The value of a text of digits, at least one. -/
def digits? (s : List Char) : Option Nat :=
  if s ≠ [] ∧ s.all Char.isDigit then some (Nat.ofDigitChars 10 s 0) else none

/-- The value of a numeral below `limit`; one plus sign and leading zeros are allowed. -/
def number? (limit : Nat) (s : List Char) : Option Nat :=
  let body := match s with
    | '+' :: rest => rest
    | _ => s
  (digits? body).filter (· < limit)

def numeralText (n : Nat) : String := String.ofList (numeral n)

end NetPool.Text
