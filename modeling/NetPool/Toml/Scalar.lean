import NetPool.Settings.Tree
import NetPool.Toml.Text

/-! Numbers, dates and truth values of a TOML text. -/

namespace NetPool.Toml

open Scan

/-- Digits, with single underscores between them that do not count. -/
def grouped (p : Char → Bool) : Scan (List Char) := do
  let first ← one p
  let rest ← many ((do exactly "_"; one p) <|> one p)
  return first :: rest

/-- Whether there is a minus sign; a plus sign may stand in its place. -/
def negative : Scan Bool := do
  return (← maybe (one fun c => c = '+' || c = '-')) = some '-'

def decimal : Scan (List Char) := do
  match ← peek with
  | some '0' => return [← any]
  | _ => grouped Char.isDigit

def inBase (mark : String) (base : Nat) : Scan Int := do
  exactly mark
  return valueOf base (← grouped (isDigitOf base))

/-- A whole number of 64 bits with a sign. -/
def integer : Scan Setting := do
  let signed : Scan Int := do
    let minus ← negative
    let n : Int := valueOf 10 (← decimal)
    return if minus then -n else n
  let n ← inBase "0x" 16 <|> inBase "0o" 8 <|> inBase "0b" 2 <|> signed
  if Int64.minValue.toInt ≤ n ∧ n ≤ Int64.maxValue.toInt then return .integer n else failure

def places : Scan (List Char) := do
  exactly "."
  return '.' :: (← grouped Char.isDigit)

def power : Scan (List Char) := do
  discard (one fun c => c = 'e' || c = 'E')
  let minus ← negative
  return (if minus then ['e', '-'] else ['e']) ++ (← grouped Char.isDigit)

/-- A number with places or a power of ten; too large a positive one is none. -/
def finiteReal (minus : Bool) : Scan Float := do
  let whole ← decimal
  let rest ← (do return (← places) ++ ((← maybe power).getD [])) <|> power
  let x := Setting.realOf (String.ofList ((if minus then ['-'] else []) ++ whole ++ rest))
  if !minus && x == 1.0 / 0.0 then failure else return x

def special (minus : Bool) : Scan Float :=
  (do exactly "inf"; return if minus then -(1.0 / 0.0) else 1.0 / 0.0) <|>
    (do exactly "nan"; return 0.0 / 0.0)

def real : Scan Setting := do
  let minus ← negative
  Setting.real <$> (finiteReal minus <|> special minus)

/-- A number of so many digits, from `low` up to `high`. -/
def fixed (count low high : Nat) : Scan Nat := do
  let n := valueOf 10 (← (List.replicate count ()).mapM fun _ => one Char.isDigit)
  if low ≤ n ∧ n ≤ high then return n else failure

def daysIn (year month : Nat) : Nat :=
  if month = 2 then if year % 4 = 0 ∧ (year % 100 ≠ 0 ∨ year % 400 = 0) then 29 else 28
  else if month = 4 ∨ month = 6 ∨ month = 9 ∨ month = 11 then 30
  else 31

def date : Scan Unit := do
  let year ← fixed 4 0 9999
  exactly "-"
  let month ← fixed 2 1 12
  exactly "-"
  discard (fixed 2 1 (daysIn year month))

def time : Scan Unit := do
  discard (fixed 2 0 23)
  exactly ":"
  discard (fixed 2 0 59)
  exactly ":"
  discard (fixed 2 0 60)
  discard (maybe do exactly "."; discard (one Char.isDigit); every Char.isDigit)

/-- How far a time is off the standard one. -/
def offset : Scan Unit :=
  discard (one fun c => c = 'Z' || c = 'z') <|> do
    discard (one fun c => c = '+' || c = '-')
    discard (fixed 2 0 23)
    exactly ":"
    discard (fixed 2 0 59)

def dateAndTime : Scan Unit := do
  date
  discard (maybe do
    discard (one fun c => c = 'T' || c = 't' || c = ' ')
    time
    discard (maybe offset))

def moment : Scan Setting := do
  let before ← get
  dateAndTime <|> time
  let after ← get
  return .moment (String.ofList (before.take (before.length - after.length)))

def truth : Scan Setting :=
  (do exactly "true"; return .bool true) <|> (do exactly "false"; return .bool false)

def scalar : Scan Setting := Setting.text <$> text <|> truth <|> moment <|> real <|> integer

end NetPool.Toml
