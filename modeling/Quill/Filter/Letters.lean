import Quill.Filter
import Quill.Text.Casing
import Quill.Text.Blank

/-!
Filters on text: letter case, shortening, and marking as safe.
-/

namespace Quill
namespace Filter

def upper : Filter := unary "upper" fun v => do
  return .ofString (Text.upper (← v.output).text)

def lower : Filter := unary "lower" fun v => do
  return .ofString (Text.lower (← v.output).text)

def safe : Filter := unary "safe" fun v => do
  return .text ⟨(← v.output).text, true⟩

/-! ## Shortening -/

/-- The digits of a numeral in which single underscores may stand between digits. -/
def groupedDigits? : List Char → Option (List Char)
  | [] => none
  | [c] => if Text.isDigit c then some [c] else none
  | c :: '_' :: rest => if Text.isDigit c then (groupedDigits? rest).map (c :: ·) else none
  | c :: rest => if Text.isDigit c then (groupedDigits? rest).map (c :: ·) else none

/-- What may stand around a numeral: white space, of which ASCII has only the six common
characters here. -/
def isPadding (c : Char) : Bool :=
  if c.toNat < 128 then c == ' ' || (9 ≤ c.toNat && c.toNat ≤ 13) else Text.isBlank c

def readInt? (s : String) : Option Int :=
  let cs := ((s.toList.dropWhile isPadding).reverse.dropWhile isPadding).reverse
  let (negative, cs) :=
    match cs with
    | '-' :: rest => (true, rest)
    | '+' :: rest => (false, rest)
    | _ => (false, cs)
  (groupedDigits? cs).bind fun digits =>
    if Text.numeralLimit < digits.length then none
    else
      let n := Int.ofNat (Text.natOfDigits digits)
      some (if negative then -n else n)

/-- The whole number that a value stands for: a number loses its fraction, a truth value
counts as one or zero, and a text is read. -/
def wholeNumber? : Value → Option Int
  | .bool b => some (if b then 1 else 0)
  | .number (.int n) => some n
  | .number (.float x) => x.truncate?
  | .number (.decimal d) => d.truncate?
  | .text t => readInt? t.text
  | _ => none

def defaultLength : Int := 50

def ellipsis : Char := '…'

/-- The length that an argument asks for; zero and what is no number ask for the usual
one. -/
def lengthOf (argument : Value) : Int :=
  match wholeNumber? argument with
  | none => defaultLength
  | some n => if n = 0 then defaultLength else n

/-- The first `n` characters; a negative number counts from the end. -/
def firstChars (n : Int) (cs : List Char) : List Char :=
  if n < 0 then cs.take (cs.length - n.natAbs) else cs.take n.toNat

def shorten (n : Int) (t : Marked) : Marked :=
  let cs := t.text.toList
  if n < Int.ofNat cs.length then .plain (String.ofList (firstChars n cs ++ [ellipsis])) else t

def truncate : Filter :=
  ⟨"truncate", [], 1, false, fun v arguments =>
    match v with
    | .null => .ok (.ofString "")
    | v => do
      let t ← v.output
      return .text (shorten (lengthOf (arguments.headD (.ofInt defaultLength))) t)⟩

end Filter
end Quill
