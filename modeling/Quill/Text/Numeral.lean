import Quill.Text.Digit

/-!
Numerals: the text of whole numbers.  A numeral may use the digits of any script, and
neither reading nor writing handles more than `numeralLimit` digits.
-/

namespace Quill
namespace Text

/-- The most digits that a whole number may have when it is read from text or written as
text. -/
def numeralLimit : Nat := 4300

/-- The number that a list of digits stands for, characters that are no digits counting
as zero. -/
def natOfDigits (cs : List Char) : Nat :=
  cs.foldl (fun n c => 10 * n + (digitValue? c).getD 0) 0

/-- The number of digits of a number, at least one. -/
def digitCount (n : Nat) : Nat := (Nat.toDigits 10 n).length

def natText (n : Nat) : String := String.ofList (Nat.toDigits 10 n)

def intText (n : Int) : String := if n < 0 then "-" ++ natText n.natAbs else natText n.natAbs

def intText? (n : Int) : Option String :=
  if n.natAbs < Nat.pow 10 numeralLimit then some (intText n) else none

def paddedNat (width n : Nat) : List Char :=
  let digits := Nat.toDigits 10 n
  List.replicate (width - digits.length) '0' ++ digits

def readNat? (cs : List Char) : Option Nat :=
  if cs.isEmpty || !cs.all isDigit then none else some (natOfDigits cs)

end Text
end Quill
