import CurveKeys.Bytes.Decimal

/-!
# Journal — calendar

Dates of the proleptic Gregorian calendar, and the text of a moment in universal time. Moments are
milliseconds since the beginning of 1970.

* `Date.ofDays`: the date of a day counted from 1 January 1970.
* `Timestamp.text`: `YYYY-MM-DD HH:MM:SS.mmm`.
-/

namespace CurveKeys

/-- A day of a month of a year. -/
structure Date where
  year : Int
  month : Int
  day : Int
  deriving DecidableEq, Repr

namespace Date

/-- The date `n` days after 1 March of year 0. Years are counted from March to February, so that
the leap day ends its year: 400 years have 146097 days, a century has 36524, four years have 1461,
and each last of its kind may be a day longer. Months from March on follow the pattern
31, 30, 31, 30, 31 of 153 days. -/
def ofMarchDays (n : Int) : Date :=
  let era := n.fdiv 146097
  let inEra := n - 146097 * era
  let century := min 3 (inEra / 36524)
  let inCentury := inEra - 36524 * century
  let cycle := inCentury / 1461
  let inCycle := inCentury - 1461 * cycle
  let yearOfCycle := min 3 (inCycle / 365)
  let dayOfYear := inCycle - 365 * yearOfCycle
  let month := (5 * dayOfYear + 2) / 153
  let day := dayOfYear - (153 * month + 2) / 5 + 1
  let year := 400 * era + 100 * century + 4 * cycle + yearOfCycle
  if month < 10 then ⟨year, month + 3, day⟩ else ⟨year + 1, month - 9, day⟩

/-- The date `n` days after 1 January 1970. -/
def ofDays (n : Int) : Date := ofMarchDays (n + 719468)

end Date

namespace Timestamp

/-- The second a moment belongs to: the fraction is cut off, for moments before 1970 upwards. -/
def second (ms : Int) : Int := ms.tdiv 1000

/-- The milliseconds a moment lies after its second, or before it when it is before 1970. -/
def fraction (ms : Int) : Int := ms.tmod 1000

/-- `YYYY-MM-DD HH:MM:SS.mmm`. -/
def text (ms : Int) : Bytes :=
  let days := (second ms).fdiv 86400
  let time := (second ms).fmod 86400
  let date := Date.ofDays days
  Decimal.ofInt date.year ++ 0x2d :: Decimal.padded 2 date.month
    ++ 0x2d :: Decimal.padded 2 date.day
    ++ 0x20 :: Decimal.padded 2 (time / 3600)
    ++ 0x3a :: Decimal.padded 2 (time / 60 % 60)
    ++ 0x3a :: Decimal.padded 2 (time % 60)
    ++ 0x2e :: Decimal.padded 3 (fraction ms)

end Timestamp

end CurveKeys
