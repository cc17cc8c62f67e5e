import NetPool.Text.Decimal

/-! Instants as dates and times of day, in the standard time zone. -/

namespace NetPool.Text

/-- Days are counted from March 1st, 0000 on, so that a leap day ends its year. -/
def daysToEpoch : Int := 719468

/-- Year, month and day of a day counted from January 1st, 1970. -/
def calendarDay (day : Int) : Int × Nat × Nat :=
  let z := day + daysToEpoch
  let era := z / 146097
  let inEra := (z % 146097).toNat
  let yearOfEra := (inEra - inEra / 1460 + inEra / 36524 - inEra / 146096) / 365
  let dayOfYear := inEra - (365 * yearOfEra + yearOfEra / 4 - yearOfEra / 100)
  let shifted := (5 * dayOfYear + 2) / 153
  let day := dayOfYear - (153 * shifted + 2) / 5 + 1
  let month := if shifted < 10 then shifted + 3 else shifted - 9
  (yearOfEra + era * 400 + (if month ≤ 2 then 1 else 0), month, day)

/-- Parts of a second in as many groups of three digits as they need. -/
def secondParts (nanos : Nat) : List Char :=
  if nanos = 0 then []
  else if nanos % 1000000 = 0 then '.' :: padded 3 (nanos / 1000000)
  else if nanos % 1000 = 0 then '.' :: padded 6 (nanos / 1000)
  else '.' :: padded 9 nanos

/-- An instant counted from January 1st, 1970. -/
def timestamp (seconds : Int) (nanos : Nat) : String :=
  let (year, month, day) := calendarDay (seconds / 86400)
  let s := (seconds % 86400).toNat
  String.ofList (padded 4 year.toNat ++ '-' :: padded 2 month ++ '-' :: padded 2 day ++ 'T' ::
    padded 2 (s / 3600) ++ ':' :: padded 2 (s / 60 % 60) ++ ':' :: padded 2 (s % 60) ++
    secondParts nanos) ++ "+00:00"

end NetPool.Text
