import Quill.Calendar.Date
import Quill.Text.Blank

/-!
Reading dates and times; `Date.read?` is the reader.  Two formats are tried: the exchange
format with all its short forms (week dates, no separators, fractions, offsets), which
counts characters and accepts ASCII digits only, and a looser one that allows one-digit
months, hours and so on and digits of any script.
-/

namespace Quill

/-! ## The exchange format -/

namespace Iso

def asciiDigit? (c : Char) : Option Nat :=
  if '0' ≤ c ∧ c ≤ '9' then some (c.toNat - 48) else none

def isAsciiDigit (c : Char) : Bool := (asciiDigit? c).isSome

def digits? : Nat → Nat → List Char → Option (Nat × List Char)
  | 0, value, cs => some (value, cs)
  | _ + 1, _, [] => none
  | n + 1, value, c :: cs => (asciiDigit? c).bind fun d => digits? n (10 * value + d) cs

def expect? (c : Char) : List Char → Option (List Char)
  | [] => none
  | d :: rest => if d == c then some rest else none

/-- The week form of a date after its `W`: two digits of the week and, if there is more to
the date, a day of the week. -/
def week? (year : Nat) (separated more : Bool) (cs : List Char) : Option Date :=
  (digits? 2 0 cs).bind fun (week, cs) =>
    let day? : Option Nat :=
      if more then
        (if separated then expect? '-' cs else some cs).bind fun cs =>
          (digits? 1 0 cs).map (·.1)
      else some 1
    day?.bind fun day => (Date.ordinalOfWeek? year week day).bind Date.ofOrdinal?

/-- The date in the first `length` characters: year, month and day, or year, week and day
of the week, with hyphens between them or without. -/
def date? (length : Nat) (cs : List Char) : Option Date :=
  (digits? 4 0 cs).bind fun (year, cs) =>
    let separated := cs.head? == some '-'
    let cs := if separated then cs.drop 1 else cs
    if cs.head? == some 'W' then
      let used := if separated then 8 else 7
      week? year separated (used < length) (cs.drop 1)
    else
      (digits? 2 0 cs).bind fun (month, cs) =>
      (if separated then expect? '-' cs else some cs).bind fun cs =>
      (digits? 2 0 cs).bind fun (day, _) => Date.make? year month day

/-- Lengths in this format count bytes: a wide character is followed by as many marks as
it has further bytes. -/
def widen (cs : List Char) : List Char :=
  cs.flatMap fun c => c :: List.replicate (c.utf8Size - 1) '\u0080'

def dateOnly? (text : List Char) : Option Date :=
  let cs := widen text
  if cs.length = 7 ∨ cs.length = 8 ∨ cs.length = 10 then date? cs.length cs else none

/-- How many characters the date takes up in a text of date and time.  In the week forms
the digits that follow decide. -/
def dateLength (cs : List Char) : Option Nat :=
  let digitAt (n : Nat) : Bool := (cs[n]?).any isAsciiDigit
  if cs.length < 7 then none
  else if cs.length = 7 then some 7
  else if cs[4]? == some '-' then
    if cs[5]? == some 'W' then
      if cs[8]? == some '-' then
        if cs.length = 9 then none
        else if digitAt 10 then some 8
        else some 10
      else some 8
    else some 10
  else if cs[4]? == some 'W' then
    let stop := 7 + ((cs.drop 7).takeWhile isAsciiDigit).length
    if stop < 9 then some stop else if stop % 2 = 0 then some 7 else some 8
  else some 8

/-- The character at the front; the end of the text counts as a null character. -/
def peek (cs : List Char) : Char := cs.headD '\x00'

/-- Microseconds from the digits of a fraction, of which `inside` characters are left, and
whether characters remain behind it. -/
def fraction? (inside : Nat) (cs : List Char) : Option (Nat × Bool) :=
  let places := min inside 6
  (digits? places 0 cs).map fun (value, rest) =>
    (value * Nat.pow 10 (6 - places), peek (rest.dropWhile isAsciiDigit) != '\x00')

/-- Two-digit parts, at most `more` after the first, then a fraction.  The first mark
decides whether colons stand between the parts; `inside` tells how many characters belong
to the clock, `cs` goes on beyond them. -/
def parts? (more : Nat) (colons? : Option Bool) (inside : Nat) (cs : List Char) :
    Option (List Nat × Nat × Bool) :=
  (digits? 2 0 cs).bind fun (value, cs) =>
    let mark := peek cs
    let colons := colons?.getD (mark == ':')
    let last (inside : Nat) (cs : List Char) :=
      (fraction? inside cs).map fun (micros, leftover) => ([value], micros, leftover)
    let next (inside : Nat) (cs : List Char) :=
      match more with
      | 0 => last inside cs
      | more + 1 =>
        (parts? more (some colons) inside cs).map fun (values, rest) => (value :: values, rest)
    if inside ≤ 3 then some ([value], 0, mark != '\x00')
    else if colons && mark == ':' then next (inside - 3) (cs.drop 1)
    else if mark == '.' || mark == ',' then last (inside - 3) (cs.drop 1)
    else if colons then none
    else next (inside - 2) cs

structure Clock where
  hour : Nat
  minute : Nat
  second : Nat
  microsecond : Nat
  leftover : Bool

def clock? (inside : Nat) (cs : List Char) : Option Clock :=
  (parts? 2 none inside cs).map fun (values, micros, leftover) =>
    ⟨values.getD 0 0, values.getD 1 0, values.getD 2 0, micros, leftover⟩

/-- The offset that a clock reading after a sign stands for, in microseconds.  A fraction
counts only beside a whole second. -/
def Clock.offset (c : Clock) (negative : Bool) : Int :=
  let seconds := (c.hour * 60 + c.minute) * 60 + c.second
  let micros := if seconds = 0 then 0 else Int.ofNat (seconds * 1000000 + c.microsecond)
  if negative then -micros else micros

def time? (date : Date) (cs : List Char) : Option DateTime :=
  let before := (cs.takeWhile fun c => c != '+' && c != '-' && c != 'Z').length
  let zone := cs.drop before
  (clock? before cs).bind fun clock =>
    let make := DateTime.make? date clock.hour clock.minute clock.second clock.microsecond
    match zone with
    | [] => if clock.leftover then none else make none
    | 'Z' :: rest => if peek rest == '\x00' then make (some 0) else none
    | sign :: rest =>
      (clock? rest.length rest).bind fun z =>
        if z.leftover then none else make (some (z.offset (sign == '-')))

/-- A date with or without a time; midnight when there is none.  Any one character may
stand between them. -/
def dateTime? (text : List Char) : Option DateTime :=
  let cs := widen text
  (dateLength cs).bind fun length =>
  (date? length cs).bind fun date =>
    match cs.drop length with
    | [] => DateTime.make? date 0 0 0 0 none
    | separator :: rest => time? date (rest.drop (separator.utf8Size - 1))

end Iso

/-! ## The loose format -/

namespace LooseDate

def digits? (least most : Nat) (cs : List Char) : Option (Nat × List Char) :=
  let ds := (cs.takeWhile Text.isDigit).take most
  if ds.length < least then none else some (Text.natOfDigits ds, cs.drop ds.length)

def day? (cs : List Char) : Option ((Nat × Nat × Nat) × List Char) :=
  (digits? 4 4 cs).bind fun (year, cs) =>
  (Iso.expect? '-' cs).bind fun cs =>
  (digits? 1 2 cs).bind fun (month, cs) =>
  (Iso.expect? '-' cs).bind fun cs =>
  (digits? 1 2 cs).map fun (day, cs) => ((year, month, day), cs)

/-- The fraction behind the seconds: six digits count, up to six more are passed over. -/
def fraction? (cs : List Char) : Option (Nat × List Char) :=
  match cs with
  | mark :: rest =>
    if mark == '.' || mark == ',' then
      let ds := (rest.takeWhile Text.isDigit).take 6
      let after := rest.drop ds.length
      let skipped := ((after.takeWhile Text.isDigit).take 6).length
      if ds.isEmpty then none
      else some (Text.natOfDigits ds * Nat.pow 10 (6 - ds.length), after.drop skipped)
    else some (0, cs)
  | [] => some (0, cs)

def seconds? (cs : List Char) : Option ((Nat × Nat) × List Char) :=
  match cs with
  | ':' :: rest =>
    (digits? 1 2 rest).bind fun (second, cs) =>
    (fraction? cs).map fun (micros, cs) => ((second, micros), cs)
  | _ => some ((0, 0), cs)

def lastPair? (cs : List Char) : Option Nat :=
  (digits? 2 2 cs).bind fun (n, rest) => if rest.isEmpty then some n else none

def zone? (cs : List Char) : Option (Option Int) :=
  match cs with
  | [] => some none
  | ['Z'] => some (some 0)
  | sign :: rest =>
    if sign == '+' || sign == '-' then
      (digits? 2 2 rest).bind fun (hours, rest) =>
        let minutes? :=
          match rest with
          | [] => some 0
          | ':' :: rest => lastPair? rest
          | rest => lastPair? rest
        minutes?.map fun minutes =>
          let micros := Int.ofNat ((hours * 60 + minutes) * 60000000)
          some (if sign == '-' then -micros else micros)
    else none

/-- The date of a text of date and time; the outer `none` means another form, the inner
one a time that does not exist. -/
def dateTime? (cs : List Char) : Option (Option Date) :=
  (day? cs).bind fun ((year, month, day), cs) =>
    match cs with
    | [] => none
    | mark :: cs =>
      if mark == 'T' || mark == ' ' then
        (digits? 1 2 cs).bind fun (hour, cs) =>
        (Iso.expect? ':' cs).bind fun cs =>
        (digits? 1 2 cs).bind fun (minute, cs) =>
        (seconds? cs).bind fun ((second, micros), cs) =>
        (zone? (cs.dropWhile Text.isBlank)).map fun offset =>
          (Date.make? year month day).bind fun date =>
            (DateTime.make? date hour minute second micros offset).map DateTime.date
      else none

def dateOnly? (cs : List Char) : Option Date :=
  (day? cs).bind fun ((year, month, day), cs) =>
    if cs.isEmpty then Date.make? year month day else none

end LooseDate

def Date.read? (cs : List Char) : Option Date :=
  match Iso.dateTime? cs with
  | some t => some t.date
  | none =>
    match LooseDate.dateTime? cs with
    | some found => found
    | none =>
      match Iso.dateOnly? cs with
      | some d => some d
      | none => LooseDate.dateOnly? cs

end Quill
