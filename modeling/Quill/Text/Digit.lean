import Quill.Text.Ranges

/-!
Decimal digits of every script.  Each script has its ten digits in one run, so a
digit is known by the first code point of its run and its value is the distance
from there.
-/

namespace Quill
namespace Text

/-- The code points of the zeros: a digit lies at most nine places after one of them. -/
def digitZeros : List Nat := [
  48, 1632, 1776, 1984, 2406, 2534, 2662, 2790, 2918, 3046, 3174, 3302,
  3430, 3558, 3664, 3792, 3872, 4160, 4240, 6112, 6160, 6470, 6608, 6784,
  6800, 6992, 7088, 7232, 7248, 42528, 43216, 43264, 43472, 43504, 43600, 44016,
  65296, 66720, 68912, 69734, 69872, 69942, 70096, 70384, 70736, 70864, 71248, 71360,
  71472, 71904, 72016, 72784, 73040, 73120, 92768, 92864, 93008, 120782, 120792, 120802,
  120812, 120822, 123200, 123632, 125264, 130032]

/-- The value of a decimal digit, looked up in an increasing list of zeros. -/
def digitIn : List Nat → Nat → Option Nat
  | [], _ => none
  | start :: rest, n =>
    if n < start then none else if n < start + 10 then some (n - start) else digitIn rest n

def digitValue? (c : Char) : Option Nat := digitIn digitZeros c.toNat

def isDigit (c : Char) : Bool := (digitValue? c).isSome

/-- Superscripts, subscripts and circled digits: characters that show a digit but are not one. -/
def digitLikeRanges : List (Nat × Nat) := [
  (178, 179), (185, 185), (4969, 4977), (6618, 6618), (8304, 8304), (8308, 8313), (8320, 8329),
  (9312, 9320), (9332, 9340), (9352, 9360), (9450, 9450), (9461, 9469), (9471, 9471),
  (10102, 10110), (10112, 10120), (10122, 10130), (68160, 68163), (69216, 69224), (69714, 69722),
  (127232, 127242)]

def isDigitLike (c : Char) : Bool := isDigit c || inRanges digitLikeRanges c.toNat

theorem digitIn_lt {zeros : List Nat} {n d : Nat} (h : digitIn zeros n = some d) : d < 10 := by
  induction zeros with
  | nil => simp [digitIn] at h
  | cons start rest ih =>
    simp only [digitIn] at h
    split at h
    · cases h
    · split at h
      · injection h with h
        omega
      · exact ih h

theorem digitValue?_lt {c : Char} {d : Nat} (h : digitValue? c = some d) : d < 10 :=
  digitIn_lt h

end Text
end Quill
