import Quill.Number.Binary64
import Quill.Text.Numeral

/-!
The text of a double: the fewest decimal digits that read back as the same double, and
of those the nearest to it.

A double stands for all reals that round to it, an interval with its ends included
exactly when the significand is even.  For one digit, two digits and so on the two
neighbours of the double on the decimal grid of that many digits are tried; the first
grid that meets the interval gives the digits.
-/

namespace Quill
namespace Binary64

/-- How many digits stand before the decimal point of `num / den`; negative when zeros
follow the point. -/
def pointOf (num den : Nat) : Int :=
  let k : Int := Int.ofNat (Text.digitCount num) - Int.ofNat (Text.digitCount den)
  let reached := if 0 ≤ k then den * Nat.pow 10 k.toNat ≤ num else den ≤ num * Nat.pow 10 (-k).toNat
  if reached then k + 1 else k

def timesTen (num den : Nat) (k : Int) : Nat × Nat :=
  if 0 ≤ k then (num * Nat.pow 10 k.toNat, den) else (num, den * Nat.pow 10 (-k).toNat)

/-- The grid point of `places` digits nearest to a double that still rounds to it. -/
def gridPoint? (significand : Nat) (exponent : Int) (point : Int) (places : Nat) : Option Nat :=
  let isPower := significand = Nat.pow 2 (precision - 1) ∧ leastExponent < exponent
  let lowGap := if isPower then 1 else 2
  let closed := significand % 2 = 0
  let (num, den) := ratio 1 (exponent - 2)
  let (num, den) := timesTen num den (Int.ofNat places - point)
  let value := 4 * significand * num
  let low := (4 * significand - lowGap) * num
  let high := (4 * significand + 2) * num
  let below := value / den
  let above := below + 1
  let belowFits := low < below * den ∨ (closed ∧ low = below * den)
  let aboveFits := above * den < high ∨ (closed ∧ above * den = high)
  if belowFits then
    if aboveFits then
      let toBelow := value - below * den
      let toAbove := above * den - value
      if toBelow < toAbove then some below
      else if toAbove < toBelow then some above
      else if below % 2 = 0 then some below else some above
    else some below
  else if aboveFits then some above
  else none

/-- The shortest digits of a positive double and the place of its decimal point. -/
def shortest (significand : Nat) (exponent : Int) : List Char × Int :=
  let (num, den) := ratio significand exponent
  let point := pointOf num den
  let hit := (List.range 17).findSome? fun n =>
    (gridPoint? significand exponent point (n + 1)).map fun digits => (digits, n + 1)
  match hit with
  | none => ([], point)
  | some (digits, places) =>
    let text := Nat.toDigits 10 digits
    ((text.reverse.dropWhile (· == '0')).reverse, point + Int.ofNat text.length - Int.ofNat places)

structure Layout where
  leastPoint : Int
  greatestPoint : Int
  exponentDigits : Nat

/-- Doubles are written positionally from `0.0001` up to below `10 ^ 16`, with an exponent
of at least two digits and always a sign outside of that, and always show a fraction when
positional. -/
def layout : Layout := ⟨-3, 16, 2⟩

def Layout.write (l : Layout) (digits : List Char) (point : Int) : List Char :=
  if l.leastPoint ≤ point ∧ point ≤ l.greatestPoint then
    if point ≤ 0 then '0' :: '.' :: List.replicate (-point).toNat '0' ++ digits
    else
      let whole := digits.take point.toNat
      let fraction := digits.drop point.toNat
      whole ++ List.replicate (point.toNat - whole.length) '0' ++
        '.' :: (if fraction.isEmpty then ['0'] else fraction)
  else
    let exponent := point - 1
    let mantissa :=
      match digits with
      | [] => []
      | [d] => [d]
      | d :: rest => d :: '.' :: rest
    mantissa ++ 'e' :: (if exponent < 0 then '-' else '+') ::
      Text.paddedNat l.exponentDigits exponent.natAbs

def toText : Binary64 → String
  | .nan => "nan"
  | .inf negative => if negative then "-inf" else "inf"
  | .finite negative m e =>
    let body :=
      if m = 0 then layout.write ['0'] 1
      else
        let (digits, point) := shortest m e
        layout.write digits point
    String.ofList (if negative then '-' :: body else body)

/-- Reads decimal notation: digits, a fraction and an exponent, each optional but not all
digits missing. -/
def readDecimal? (cs : List Char) : Option Binary64 :=
  let (negative, cs) :=
    match cs with
    | '-' :: rest => (true, rest)
    | '+' :: rest => (false, rest)
    | _ => (false, cs)
  let whole := cs.takeWhile Text.isDigit
  let cs := cs.dropWhile Text.isDigit
  let (fraction, cs) :=
    match cs with
    | '.' :: rest => (rest.takeWhile Text.isDigit, rest.dropWhile Text.isDigit)
    | _ => ([], cs)
  let coefficient := Text.natOfDigits (whole ++ fraction)
  let exponent? : Option Int :=
    match cs with
    | [] => some 0
    | e :: rest =>
      if e == 'e' || e == 'E' then
        match rest with
        | '-' :: digits => (Text.readNat? digits).map fun n => -Int.ofNat n
        | '+' :: digits => (Text.readNat? digits).map Int.ofNat
        | digits => (Text.readNat? digits).map Int.ofNat
      else none
  if whole.isEmpty && fraction.isEmpty then none
  else exponent?.map fun e => ofDecimal negative coefficient (e - Int.ofNat fraction.length)

def ofText? (s : String) : Option Binary64 :=
  if s == "nan" then some .nan
  else if s == "inf" then some (.inf false)
  else if s == "-inf" then some (.inf true)
  else readDecimal? s.toList

end Binary64
end Quill
