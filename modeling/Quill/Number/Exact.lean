import Quill.Number.Binary64
import Quill.Number.Decimal

/-!
Exact values of numbers, in one normal form: a sign, a coefficient without trailing
zeros and a power of ten, or an infinity.  Two numbers of any kinds are equal when their
normal forms are, and `Exact.compare` orders normal forms without writing out large
powers of ten.
-/

namespace Quill

/-- The value of a number: plus or minus `coefficient * 10 ^ exponent`, or an infinity. -/
inductive Exact where
  | finite (negative : Bool) (coefficient : Nat) (exponent : Int)
  | infinite (negative : Bool)
  deriving DecidableEq, Repr

namespace Exact

/-- A coefficient without trailing zeros, of which there are at most `fuel`, and the
exponent that makes up for them. -/
def stripZeros : Nat → Nat → Int → Nat × Int
  | 0, c, e => (c, e)
  | fuel + 1, c, e => if c % 10 = 0 then stripZeros fuel (c / 10) (e + 1) else (c, e)

def normal (negative : Bool) (coefficient : Nat) (exponent : Int) : Exact :=
  if coefficient = 0 then .finite false 0 0
  else
    let (c, e) := stripZeros (coefficient.log2 + 1) coefficient exponent
    .finite negative c e

def ofInt (n : Int) : Exact := normal (decide (n < 0)) n.natAbs 0

/-- The value of a double; none when it is not a number. -/
def ofBinary64? : Binary64 → Option Exact
  | .nan => none
  | .inf s => some (.infinite s)
  | .finite s m e =>
    some (if 0 ≤ e then normal s (m * Nat.pow 2 e.toNat) 0
      else normal s (m * Nat.pow 5 (-e).toNat) e)

/-- The value of a decimal number; none when it is not a number. -/
def ofDecimal? : Decimal → Option Exact
  | .nan .. => none
  | .infinity s => some (.infinite s)
  | .finite s c e => some (normal s c e)

def sign : Exact → Int
  | .finite _ 0 _ => 0
  | .finite s _ _ => if s then -1 else 1
  | .infinite s => if s then -1 else 1

/-- The order of two positive numbers: by the place of the first digit, and where that is
the same by the coefficients brought to one exponent. -/
def compareMagnitude (ca : Nat) (ea : Int) (cb : Nat) (eb : Int) : Ordering :=
  let firstA := Decimal.adjusted ca ea
  let firstB := Decimal.adjusted cb eb
  if firstA < firstB then .lt
  else if firstB < firstA then .gt
  else
    let low := min ea eb
    Ord.compare (ca * Nat.pow 10 (ea - low).toNat) (cb * Nat.pow 10 (eb - low).toNat)

def compareSize : Exact → Exact → Ordering
  | .infinite _, .infinite _ => .eq
  | .infinite _, .finite .. => .gt
  | .finite .., .infinite _ => .lt
  | .finite _ ca ea, .finite _ cb eb => compareMagnitude ca ea cb eb

def compare (a b : Exact) : Ordering :=
  if sign a < sign b then .lt
  else if sign b < sign a then .gt
  else if sign a = 0 then .eq
  else if sign a < 0 then compareSize b a
  else compareSize a b

end Exact
end Quill
