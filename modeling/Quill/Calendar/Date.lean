import Quill.Number.Binary64
import Quill.Text.Numeral

/-!
Dates of the Gregorian calendar, extended to the years 1 to 9999, and points of time on
them.  Days are numbered from 1 January of year 1, which is day 1.
-/

namespace Quill

structure Date where
  year : Nat
  month : Nat
  day : Nat
  deriving DecidableEq, Repr

namespace Date

def isLeap (year : Nat) : Bool :=
  year % 4 == 0 && (year % 100 != 0 || year % 400 == 0)

def daysInMonth (year month : Nat) : Nat :=
  if month == 2 then (if isLeap year then 29 else 28)
  else if [4, 6, 9, 11].contains month then 30
  else 31

def make? (year month day : Nat) : Option Date :=
  if 1 ≤ year ∧ year ≤ 9999 ∧ 1 ≤ month ∧ month ≤ 12 ∧ 1 ≤ day ∧ day ≤ daysInMonth year month then
    some ⟨year, month, day⟩
  else none

def daysBeforeYear (year : Nat) : Nat :=
  let y := year - 1
  365 * y + y / 4 - y / 100 + y / 400

def daysBeforeMonth (year month : Nat) : Nat :=
  (List.range (month - 1)).foldl (fun days m => days + daysInMonth year (m + 1)) 0

def toOrdinal (d : Date) : Nat := daysBeforeYear d.year + daysBeforeMonth d.year d.month + d.day

def monthFrom (year rest : Nat) : Nat → Nat → Date
  | 0, month => ⟨year, month, rest⟩
  | more + 1, month =>
    let length := daysInMonth year month
    if rest ≤ length then ⟨year, month, rest⟩ else monthFrom year (rest - length) more (month + 1)

def ofOrdinal? (n : Int) : Option Date :=
  if n < 1 ∨ 3652059 < n then none
  else
    let n := n.toNat
    let guess := (n - 1) / 366 + 1
    let year := guess + ((List.range 30).filter fun k => daysBeforeYear (guess + k + 1) < n).length
    some (monthFrom year (n - daysBeforeYear year) 11 1)

/-- The number of the Monday that begins week 1 of a year: that week holds the year's
first Thursday. -/
def firstMonday (year : Nat) : Int :=
  let first : Int := Int.ofNat (daysBeforeYear year) + 1
  let day := Int.fmod (first + 6) 7
  if day > 3 then first - day + 7 else first - day

def hasLongWeeks (year : Nat) : Bool :=
  let day := (daysBeforeYear year) % 7
  day == 3 || (day == 2 && isLeap year)

def ordinalOfWeek? (year week day : Nat) : Option Int :=
  if 1 ≤ year ∧ (1 ≤ week ∧ week ≤ 52 ∨ week = 53 ∧ hasLongWeeks year) ∧ 1 ≤ day ∧ day ≤ 7 then
    some (firstMonday year + (Int.ofNat week - 1) * 7 + Int.ofNat day - 1)
  else none

def epoch : Int := 719163

def text (d : Date) : List Char :=
  Text.paddedNat 4 d.year ++ '-' :: Text.paddedNat 2 d.month ++ '-' :: Text.paddedNat 2 d.day

def toText (d : Date) : String := String.ofList d.text

def monthNames : List String :=
  ["Jan", "Feb", "Mar", "Apr", "May", "Jun", "Jul", "Aug", "Sep", "Oct", "Nov", "Dec"]

def monthName (d : Date) : String := monthNames.getD (d.month - 1) ""

def yearText (d : Date) : String := String.ofList (Text.paddedNat 4 d.year)

/-- The date a moment falls on, counted in milliseconds from the start of the epoch.  The
moment is first rounded to microseconds. -/
def ofEpochMillis? (millis : Binary64) : Option Date :=
  (Binary64.div? millis (Binary64.ofRatio false 1000 1)).bind fun seconds =>
  seconds.truncate?.bind fun whole =>
  (Binary64.ofInt? whole).bind fun wholeFloat =>
  let micros :=
    Binary64.mul (Binary64.sub seconds wholeFloat) (Binary64.ofRatio false 1000000 1)
  let rounded : Int :=
    match micros with
    | .finite s m e =>
      let (num, den) := Binary64.ratio m e
      let n := Int.ofNat (Binary64.divideRounded num den)
      if s then -n else n
    | _ => 0
  let seconds :=
    if 1000000 ≤ rounded then whole + 1 else if rounded < 0 then whole - 1 else whole
  ofOrdinal? (epoch + Int.fdiv seconds 86400)

end Date

/-- A point of time: a date, a time of day and, where it is known, the distance of the
local clock from universal time in microseconds. -/
structure DateTime where
  date : Date
  hour : Nat
  minute : Nat
  second : Nat
  microsecond : Nat
  offset : Option Int
  deriving DecidableEq, Repr

namespace DateTime

/-- A time of day that exists, at an offset of less than a day. -/
def make? (date : Date) (hour minute second microsecond : Nat) (offset : Option Int) :
    Option DateTime :=
  let inRange := offset.all fun o => decide (o.natAbs < 86400000000)
  if hour ≤ 23 ∧ minute ≤ 59 ∧ second ≤ 59 ∧ microsecond ≤ 999999 ∧ inRange then
    some ⟨date, hour, minute, second, microsecond, offset⟩
  else none

def localMicros (t : DateTime) : Int :=
  let seconds := ((t.date.toOrdinal * 24 + t.hour) * 60 + t.minute) * 60 + t.second
  Int.ofNat (seconds * 1000000 + t.microsecond)

/-- What identifies a point of time: the instant where the offset is known, and the local
reading otherwise. -/
def instant (t : DateTime) : Bool × Int :=
  match t.offset with
  | none => (false, t.localMicros)
  | some o => (true, t.localMicros - o)

def offsetText (offset : Int) : List Char :=
  let n := offset.natAbs
  let seconds := n / 1000000
  let micros := n % 1000000
  let base := (if offset < 0 then '-' else '+') :: Text.paddedNat 2 (seconds / 3600) ++
    ':' :: Text.paddedNat 2 (seconds / 60 % 60)
  let fine := ':' :: Text.paddedNat 2 (seconds % 60)
  if micros ≠ 0 then base ++ fine ++ '.' :: Text.paddedNat 6 micros
  else if seconds % 60 ≠ 0 then base ++ fine
  else base

/-- Date and time with a separator between them; microseconds and offset are left out when
there are none. -/
def text (separator : Char) (t : DateTime) : List Char :=
  t.date.text ++ separator :: Text.paddedNat 2 t.hour ++ ':' :: Text.paddedNat 2 t.minute ++
    ':' :: Text.paddedNat 2 t.second ++
    (if t.microsecond = 0 then [] else '.' :: Text.paddedNat 6 t.microsecond) ++
    (match t.offset with
     | none => []
     | some o => offsetText o)

def toText (t : DateTime) : String := String.ofList (t.text ' ')

def toIso (t : DateTime) : String := String.ofList (t.text 'T')

end DateTime
end Quill
