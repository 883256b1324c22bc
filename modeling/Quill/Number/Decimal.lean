import Quill.Text.Numeral

/-!
Decimal floating-point numbers: their text, read and written, and arithmetic.  An
operation computes the exact result and rounds it to `Decimal.precision` digits, a half
going to the even neighbour; where the result would be undefined or too large there is
none.
-/

namespace Quill

/-- A decimal number: plus or minus `coefficient * 10 ^ exponent`, an infinity, or not a
number, with the digits that it was written with. -/
inductive Decimal where
  | finite (negative : Bool) (coefficient : Nat) (exponent : Int)
  | infinity (negative : Bool)
  | nan (negative : Bool) (signaling : Bool) (payload : Nat)
  deriving DecidableEq, Repr

namespace Decimal

/-! ## Limits -/

def precision : Nat := 28

/-- The greatest power of ten that a result reaches, and the least, up to sign. -/
def exponentLimit : Int := 999999

/-- The exponent of the last digit of the smallest results. -/
def tiniest : Int := -exponentLimit - Int.ofNat precision + 1

def topmost : Int := exponentLimit - Int.ofNat precision + 1

/-! ## Properties -/

def ofInt (n : Int) : Decimal := .finite (decide (n < 0)) n.natAbs 0

def isNaN : Decimal → Bool
  | .nan .. => true
  | _ => false

def isSignaling : Decimal → Bool
  | .nan _ signaling _ => signaling
  | _ => false

def isZero : Decimal → Bool
  | .finite _ c _ => c == 0
  | _ => false

def neg : Decimal → Decimal
  | .finite s c e => .finite (!s) c e
  | .infinity s => .infinity !s
  | .nan s signaling p => .nan s signaling p

def adjusted (coefficient : Nat) (exponent : Int) : Int :=
  exponent + Int.ofNat (Text.digitCount coefficient) - 1

def truncate? : Decimal → Option Int
  | .finite s c e =>
    let n := if 0 ≤ e then c * Nat.pow 10 e.toNat else c / Nat.pow 10 (-e).toNat
    some (if s then -Int.ofNat n else Int.ofNat n)
  | _ => none

/-! ## Text -/

def signText (negative : Bool) (cs : List Char) : List Char :=
  if negative then '-' :: cs else cs

def withPoint (digits : List Char) (places : Nat) : List Char :=
  let digits := List.replicate (places + 1 - digits.length) '0' ++ digits
  digits.take (digits.length - places) ++ '.' :: digits.drop (digits.length - places)

/-- A finite number is written positionally when its last digit is not left of the point
and its first digit at most six places right of it, and with an exponent otherwise. -/
def finiteText (coefficient : Nat) (exponent : Int) : List Char :=
  let digits := Nat.toDigits 10 coefficient
  let first := adjusted coefficient exponent
  if exponent = 0 then digits
  else if exponent < 0 ∧ -6 ≤ first then withPoint digits (-exponent).toNat
  else
    let mantissa :=
      match digits with
      | [] => []
      | [d] => [d]
      | d :: rest => d :: '.' :: rest
    mantissa ++ 'E' :: (if first < 0 then '-' else '+') :: Nat.toDigits 10 first.natAbs

def toText : Decimal → String
  | .finite s c e => String.ofList (signText s (finiteText c e))
  | .infinity s => String.ofList (signText s "Infinity".toList)
  | .nan s signaling payload =>
    let name := if signaling then "sNaN".toList else "NaN".toList
    String.ofList (signText s (name ++ if payload = 0 then [] else Nat.toDigits 10 payload))

def readExponent? : List Char → Option Int
  | '-' :: rest => (Text.readNat? rest).map fun n => -Int.ofNat n
  | '+' :: rest => (Text.readNat? rest).map Int.ofNat
  | rest => (Text.readNat? rest).map Int.ofNat

/-- The digits after a mark such as `nan`, which may be missing. -/
def readPayload? (cs : List Char) : Option Nat :=
  if cs.isEmpty then some 0 else Text.readNat? cs

/-- The greatest power of ten that a written number may name, up to sign. -/
def writtenLimit : Int := 999999999999999999

def ofWritten? (negative : Bool) (coefficient : Nat) (exponent : Int) : Option Decimal :=
  let lowest := -writtenLimit - writtenLimit + 1
  let first := adjusted coefficient exponent
  if writtenLimit < first ∨ exponent < lowest then none
  else some (.finite negative coefficient exponent)

def readFinite? (negative : Bool) (cs : List Char) : Option Decimal :=
  let whole := cs.takeWhile Text.isDigit
  let cs := cs.dropWhile Text.isDigit
  let (fraction, cs) :=
    match cs with
    | '.' :: rest => (rest.takeWhile Text.isDigit, rest.dropWhile Text.isDigit)
    | _ => ([], cs)
  let exponent? :=
    match cs with
    | [] => some 0
    | e :: rest => if e == 'e' || e == 'E' then readExponent? rest else none
  if whole.isEmpty && fraction.isEmpty then none
  else
    exponent?.bind fun e =>
      ofWritten? negative (Text.natOfDigits (whole ++ fraction)) (e - Int.ofNat fraction.length)

/-- Reads a number: an optional sign, then digits with an optional point and exponent, or
an infinity, or a mark for what is not a number.  Letters may be of either case, digits of
any script, and underscores are passed over. -/
def read? (cs : List Char) : Option Decimal :=
  let cs := cs.filter fun c => c != '_'
  let (negative, cs) :=
    match cs with
    | '-' :: rest => (true, rest)
    | '+' :: rest => (false, rest)
    | _ => (false, cs)
  let low := cs.map Char.toLower
  if low == "inf".toList || low == "infinity".toList then some (.infinity negative)
  else if "snan".toList.isPrefixOf low then
    (readPayload? (low.drop 4)).map fun p => .nan negative true p
  else if "nan".toList.isPrefixOf low then
    (readPayload? (low.drop 3)).map fun p => .nan negative false p
  else readFinite? negative cs

def ofText? (s : String) : Option Decimal := read? s.toList

/-! ## Rounding -/

inductive Tie where
  | toEven
  | awayFromZero
  deriving DecidableEq, Repr

def dropDigits (tie : Tie) (coefficient places : Nat) : Nat :=
  let unit := Nat.pow 10 places
  let q := coefficient / unit
  let r := coefficient % unit
  if 2 * r < unit then q
  else if unit < 2 * r then q + 1
  else
    match tie with
    | .toEven => if q % 2 = 0 then q else q + 1
    | .awayFromZero => q + 1

/-- A result rounded to the precision and to the range of exponents; none when it is too
large. -/
def fix? (negative : Bool) (coefficient : Nat) (exponent : Int) : Option Decimal :=
  if coefficient = 0 then
    some (.finite negative 0 (min (max exponent tiniest) exponentLimit))
  else
    let size : Int := Int.ofNat (Text.digitCount coefficient)
    let least := size + exponent - Int.ofNat precision
    if topmost < least then none
    else
      let least := max least tiniest
      if exponent < least then
        let kept :=
          if size + exponent < least then 0
          else dropDigits .toEven coefficient (least - exponent).toNat
        let (kept, least) :=
          if kept = Nat.pow 10 precision then (Nat.pow 10 (precision - 1), least + 1)
          else (kept, least)
        if topmost < least then none else some (.finite negative kept least)
      else some (.finite negative coefficient exponent)

/-- What is not a number keeps at most `precision` of its digits. -/
def fixNaN (negative : Bool) (payload : Nat) : Decimal :=
  .nan negative false (payload % Nat.pow 10 precision)

/-! ## Arithmetic -/

/-- The answer of an operation one of whose operands is not a number: that operand, or
none when one of them is signaling. -/
def nanOf? (a b : Decimal) : Option Decimal :=
  if a.isSignaling || b.isSignaling then none
  else
    match a, b with
    | .nan s _ p, _ => some (fixNaN s p)
    | _, .nan s _ p => some (fixNaN s p)
    | _, _ => none

def signed (negative : Bool) (n : Nat) : Int := if negative then -Int.ofNat n else Int.ofNat n

/-- The sum of two numbers that are not zero, the first with the greater exponent.  A
second number too small to change the rounded result is replaced by a sliver. -/
def addAligned? (sa : Bool) (ca : Nat) (ea : Int) (sb : Bool) (cb : Nat) (eb : Int) :
    Option Decimal :=
  let lenA : Int := Int.ofNat (Text.digitCount ca)
  let lenB : Int := Int.ofNat (Text.digitCount cb)
  let floor := ea + min (-1) (lenA - Int.ofNat precision - 2)
  let (kept, low) := if lenB + eb - 1 < floor then (1, floor) else (cb, eb)
  let sum := signed sa (ca * Nat.pow 10 (ea - low).toNat) + signed sb kept
  if sum = 0 then fix? false 0 (min ea eb) else fix? (decide (sum < 0)) sum.natAbs low

/-- The sum of zero with exponent `ez` and another number. -/
def addZero? (ez : Int) (s : Bool) (c : Nat) (e : Int) : Option Decimal :=
  let low := max (min ez e) (e - Int.ofNat precision - 1)
  fix? s (c * Nat.pow 10 (e - low).toNat) low

def add? : Decimal → Decimal → Option Decimal
  | .finite sa ca ea, .finite sb cb eb =>
    if ca = 0 ∧ cb = 0 then fix? (sa && sb) 0 (min ea eb)
    else if ca = 0 then addZero? ea sb cb eb
    else if cb = 0 then addZero? eb sa ca ea
    else if ea < eb then addAligned? sb cb eb sa ca ea
    else addAligned? sa ca ea sb cb eb
  | .infinity sa, .infinity sb => if sa = sb then some (.infinity sa) else none
  | .infinity sa, .finite .. => some (.infinity sa)
  | .finite .., .infinity sb => some (.infinity sb)
  | a, b => nanOf? a b

def sub? (a b : Decimal) : Option Decimal := add? a (neg b)

def mul? : Decimal → Decimal → Option Decimal
  | .finite sa ca ea, .finite sb cb eb => fix? (sa != sb) (ca * cb) (ea + eb)
  | .infinity sa, .infinity sb => some (.infinity (sa != sb))
  | .infinity sa, .finite sb cb _ => if cb = 0 then none else some (.infinity (sa != sb))
  | .finite sa ca _, .infinity sb => if ca = 0 then none else some (.infinity (sa != sb))
  | a, b => nanOf? a b

/-- A coefficient with trailing zeros taken off while its exponent is below `ideal`; `fuel`
bounds their number. -/
def trimZeros (ideal : Int) : Nat → Nat → Int → Nat × Int
  | 0, c, e => (c, e)
  | fuel + 1, c, e =>
    if e < ideal ∧ c % 10 = 0 then trimZeros ideal fuel (c / 10) (e + 1) else (c, e)

/-- The quotient of two numbers, the divisor not zero.  It is computed to one digit more
than the precision; a remainder is kept by making the last digit neither zero nor five. -/
def divFinite? (sa : Bool) (ca : Nat) (ea : Int) (sb : Bool) (cb : Nat) (eb : Int) :
    Option Decimal :=
  let s := sa != sb
  if ca = 0 then fix? s 0 (ea - eb)
  else
    let shift : Int :=
      Int.ofNat (Text.digitCount cb) - Int.ofNat (Text.digitCount ca) + Int.ofNat precision + 1
    let e := ea - eb - shift
    let num := if 0 ≤ shift then ca * Nat.pow 10 shift.toNat else ca
    let den := if 0 ≤ shift then cb else cb * Nat.pow 10 (-shift).toNat
    let q := num / den
    if num % den = 0 then
      let (c, e) := trimZeros (ea - eb) (Text.digitCount q) q e
      fix? s c e
    else fix? s (if q % 5 = 0 then q + 1 else q) e

def div? : Decimal → Decimal → Option Decimal
  | .finite sa ca ea, .finite sb cb eb =>
    if cb = 0 then none else divFinite? sa ca ea sb cb eb
  | .infinity _, .infinity _ => none
  | .infinity sa, .finite sb _ _ => some (.infinity (sa != sb))
  | .finite sa _ _, .infinity sb => some (.finite (sa != sb) 0 tiniest)
  | a, b => nanOf? a b

def rescale (coefficient : Nat) (exponent target : Int) : Nat :=
  if coefficient = 0 then 0
  else if target ≤ exponent then coefficient * Nat.pow 10 (exponent - target).toNat
  else dropDigits .toEven coefficient (target - exponent).toNat

/-- The remainder with the sign of the dividend; none when the whole quotient has more
digits than the precision. -/
def modFinite? (sa : Bool) (ca : Nat) (ea : Int) (cb : Nat) (eb : Int) : Option Decimal :=
  let ideal := min ea eb
  let gap := adjusted ca ea - adjusted cb eb
  if ca = 0 then fix? sa 0 ideal
  else if gap ≤ -2 then fix? sa (rescale ca ea ideal) ideal
  else if gap ≤ Int.ofNat precision then
    let a := ca * Nat.pow 10 (ea - ideal).toNat
    let b := cb * Nat.pow 10 (eb - ideal).toNat
    if a / b < Nat.pow 10 precision then fix? sa (a % b) ideal else none
  else none

def mod? : Decimal → Decimal → Option Decimal
  | .finite sa ca ea, .finite _ cb eb => if cb = 0 then none else modFinite? sa ca ea cb eb
  | .infinity _, .infinity _ => none
  | .infinity _, .finite .. => none
  | .finite sa ca ea, .infinity _ => fix? sa ca ea
  | a, b => nanOf? a b

/-- A finite number with its last digit at `target`; none when that takes more digits than
the precision or is out of range. -/
def quantize? (tie : Tie) (target : Int) : Decimal → Option Decimal
  | .finite s c e =>
    if c = 0 then some (.finite s 0 target)
    else
      let first := adjusted c e
      if exponentLimit < first ∨ Int.ofNat precision < first - target + 1 then none
      else
        let kept :=
          if target ≤ e then c * Nat.pow 10 (e - target).toNat
          else if first + 1 < target then 0
          else dropDigits tie c (target - e).toNat
        if kept < Nat.pow 10 precision then some (.finite s kept target) else none
  | _ => none

end Decimal
end Quill
