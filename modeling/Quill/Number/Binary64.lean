/-!
Binary floating-point numbers of double width, with exact definitions: an operation
computes the exact rational result and rounds it once, to the nearest number and on a
tie to the one with an even significand.
-/

namespace Quill

/-- A double: not a number, an infinity, or plus or minus `significand * 2 ^ exponent`. -/
inductive Binary64 where
  | nan
  | inf (negative : Bool)
  | finite (negative : Bool) (significand : Nat) (exponent : Int)
  deriving DecidableEq, Repr

namespace Binary64

/-- Significands are below `2 ^ precision`. -/
def precision : Nat := 53

def leastExponent : Int := -1074

def greatestExponent : Int := 971

def zero (negative : Bool) : Binary64 := .finite negative 0 leastExponent

/-- The quotient of two numbers rounded to a whole number, halves to the even one. -/
def divideRounded (a b : Nat) : Nat :=
  let q := a / b
  let r := a % b
  if 2 * r < b then q else if b < 2 * r then q + 1 else if q % 2 = 0 then q else q + 1

/-- `num / den` divided by `2 ^ exponent` and rounded to a whole number. -/
def scaleRounded (num den : Nat) (exponent : Int) : Nat :=
  if 0 ≤ exponent then divideRounded num (den * Nat.pow 2 exponent.toNat)
  else divideRounded (num * Nat.pow 2 (-exponent).toNat) den

/-- The exponent at which a positive quotient has a significand of full precision, or the
least exponent when it is too small for that. -/
def exponentOf (num den : Nat) : Int :=
  let e : Int := Int.ofNat num.log2 - Int.ofNat den.log2
  let below := if 0 ≤ e then num < den * Nat.pow 2 e.toNat else num * Nat.pow 2 (-e).toNat < den
  max (if below then e - precision else e - precision + 1) leastExponent

def ofRatio (negative : Bool) (num den : Nat) : Binary64 :=
  if num = 0 then zero negative
  else
    let e := exponentOf num den
    let m := scaleRounded num den e
    let (m, e) := if m = Nat.pow 2 precision then (Nat.pow 2 (precision - 1), e + 1) else (m, e)
    if greatestExponent < e then .inf negative else .finite negative m e

/-- The double nearest to plus or minus `coefficient * 10 ^ exponent`.  Exponents far out
of range are answered without writing the power out. -/
def ofDecimal (negative : Bool) (coefficient : Nat) (exponent : Int) : Binary64 :=
  let atLeast : Int := exponent + Int.ofNat (coefficient.log2 * 3 / 10)
  let below : Int := exponent + Int.ofNat (coefficient.log2 * 31 / 100) + 1
  if coefficient = 0 then zero negative
  else if 400 < atLeast then .inf negative
  else if below < -400 then zero negative
  else if 0 ≤ exponent then ofRatio negative (coefficient * Nat.pow 10 exponent.toNat) 1
  else ofRatio negative coefficient (Nat.pow 10 (-exponent).toNat)

def ofInt? (n : Int) : Option Binary64 :=
  match ofRatio (decide (n < 0)) n.natAbs 1 with
  | .inf _ => none
  | x => some x

def ofQuotient? (a b : Int) : Option Binary64 :=
  match ofRatio (decide (a < 0) != decide (b < 0)) a.natAbs b.natAbs with
  | .inf _ => none
  | x => some x

def isNaN : Binary64 → Bool
  | .nan => true
  | _ => false

def isZero : Binary64 → Bool
  | .finite _ m _ => m == 0
  | _ => false

def ratio (significand : Nat) (exponent : Int) : Nat × Nat :=
  if 0 ≤ exponent then (significand * Nat.pow 2 exponent.toNat, 1)
  else (significand, Nat.pow 2 (-exponent).toNat)

def wholePart (significand : Nat) (exponent : Int) : Nat :=
  let (num, den) := ratio significand exponent
  num / den

def toInt? : Binary64 → Option Int
  | .finite negative m e =>
    let (num, den) := ratio m e
    if num % den = 0 then
      some (if negative then -Int.ofNat (num / den) else Int.ofNat (num / den))
    else none
  | _ => none

/-- A double without its fraction. -/
def truncate? : Binary64 → Option Int
  | .finite negative m e =>
    some (if negative then -Int.ofNat (wholePart m e) else Int.ofNat (wholePart m e))
  | _ => none

def neg : Binary64 → Binary64
  | .nan => .nan
  | .inf negative => .inf !negative
  | .finite negative m e => .finite (!negative) m e

def alignTo (target : Int) (negative : Bool) (m : Nat) (e : Int) : Int :=
  let n := Int.ofNat (m * Nat.pow 2 (e - target).toNat)
  if negative then -n else n

/-- The double nearest to `n * 2 ^ exponent`; a zero result has the sign given. -/
def ofScaled (zeroNegative : Bool) (n : Int) (exponent : Int) : Binary64 :=
  if n = 0 then zero zeroNegative
  else
    let (num, den) := ratio n.natAbs exponent
    ofRatio (decide (n < 0)) num den

def add : Binary64 → Binary64 → Binary64
  | .nan, _ => .nan
  | _, .nan => .nan
  | .inf a, .inf b => if a = b then .inf a else .nan
  | .inf a, .finite .. => .inf a
  | .finite .., .inf b => .inf b
  | .finite na ma ea, .finite nb mb eb =>
    let e := min ea eb
    ofScaled (na && nb) (alignTo e na ma ea + alignTo e nb mb eb) e

def sub (a b : Binary64) : Binary64 := add a (neg b)

def mul : Binary64 → Binary64 → Binary64
  | .nan, _ => .nan
  | _, .nan => .nan
  | .inf a, .inf b => .inf (a != b)
  | .inf a, .finite nb mb _ => if mb = 0 then .nan else .inf (a != nb)
  | .finite na ma _, .inf b => if ma = 0 then .nan else .inf (na != b)
  | .finite na ma ea, .finite nb mb eb =>
    let (num, den) := ratio (ma * mb) (ea + eb)
    ofRatio (na != nb) num den

def div? : Binary64 → Binary64 → Option Binary64
  | a, .finite nb mb eb =>
    if mb = 0 then none
    else
      match a with
      | .nan => some .nan
      | .inf na => some (.inf (na != nb))
      | .finite na ma ea =>
        let (numA, denA) := ratio ma ea
        let (numB, denB) := ratio mb eb
        some (ofRatio (na != nb) (numA * denB) (denA * numB))
  | .nan, _ => some .nan
  | _, .nan => some .nan
  | .inf _, .inf _ => some .nan
  | .finite na _ _, .inf nb => some (zero (na != nb))

/-- The remainder that takes the sign of the divisor; none by zero.  A remainder of the
wrong sign is moved by one divisor, with rounding. -/
def mod? : Binary64 → Binary64 → Option Binary64
  | a, .finite nb mb eb =>
    if mb = 0 then none
    else
      match a with
      | .nan => some .nan
      | .inf _ => some .nan
      | .finite na ma ea =>
        let e := min ea eb
        let r := (ma * Nat.pow 2 (ea - e).toNat) % (mb * Nat.pow 2 (eb - e).toNat)
        if r = 0 then some (zero nb)
        else
          let rest := ofScaled false (if na then -Int.ofNat r else Int.ofNat r) e
          some (if na = nb then rest else add rest (.finite nb mb eb))
  | .nan, _ => some .nan
  | _, .nan => some .nan
  | .inf _, .inf _ => some .nan
  | .finite na ma ea, .inf nb =>
    if ma = 0 then some (zero nb)
    else if na = nb then some (.finite na ma ea)
    else some (.inf nb)

end Binary64
end Quill
