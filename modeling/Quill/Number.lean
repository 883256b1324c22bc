import Quill.Number.Exact
import Quill.Number.Shortest

/-!
Numbers of three kinds: whole numbers of any size, doubles and decimals.

Whole numbers mix with either of the others; a double and a decimal never mix in
arithmetic, though they can be compared.  An operation without a result (division by zero,
overflow, a mixture that is not allowed, a signaling operand) gives `none`.
-/

namespace Quill

inductive Number where
  | int (n : Int)
  | float (x : Binary64)
  | decimal (d : Decimal)
  deriving DecidableEq, Repr

namespace Number

/-! ## Classes of numbers -/

def isNaN : Number → Bool
  | .int _ => false
  | .float x => x.isNaN
  | .decimal d => d.isNaN

def isDecimal : Number → Bool
  | .decimal _ => true
  | _ => false

def isSignaling : Number → Bool
  | .decimal d => d.isSignaling
  | _ => false

def isZero : Number → Bool
  | .int n => n == 0
  | .float x => x.isZero
  | .decimal d => d.isZero

/-- Whether a number counts as true: zero and what is not a number do not.  A signaling
decimal refuses the question. -/
def truth? (n : Number) : Option Bool :=
  if n.isSignaling then none else some (!n.isZero && !n.isNaN)

/-! ## Comparison -/

def amount? : Number → Option Exact
  | .int n => some (Exact.ofInt n)
  | .float x => Exact.ofBinary64? x
  | .decimal d => Exact.ofDecimal? d

/-- Equality of values across the kinds; what is not a number equals nothing.  A signaling decimal
refuses the question. -/
def equal? (a b : Number) : Option Bool :=
  if a.isSignaling || b.isSignaling then none
  else
    match a.amount?, b.amount? with
    | some x, some y => some (decide (x = y))
    | _, _ => some false

/-- An order relation between two numbers.  A double that is not a number stands in none,
and next to a decimal the question has no answer. -/
def related? (test : Ordering → Bool) (a b : Number) : Option Bool :=
  match a.amount?, b.amount? with
  | some x, some y => some (test (Exact.compare x y))
  | _, _ => if a.isDecimal || b.isDecimal then none else some false

/-! ## Arithmetic -/

structure Operation where
  onInts : Int → Int → Option Number
  onFloats : Binary64 → Binary64 → Option Binary64
  onDecimals : Decimal → Decimal → Option Decimal

/-- Whole numbers become doubles or decimals beside one. -/
def calculate? (op : Operation) : Number → Number → Option Number
  | .int a, .int b => op.onInts a b
  | .float x, .float y => (op.onFloats x y).map .float
  | .decimal d, .decimal e => (op.onDecimals d e).map .decimal
  | .int a, .float y => (Binary64.ofInt? a).bind fun x => (op.onFloats x y).map .float
  | .float x, .int b => (Binary64.ofInt? b).bind fun y => (op.onFloats x y).map .float
  | .int a, .decimal e => (op.onDecimals (.ofInt a) e).map .decimal
  | .decimal d, .int b => (op.onDecimals d (.ofInt b)).map .decimal
  | .float _, .decimal _ => none
  | .decimal _, .float _ => none

def addition : Operation :=
  ⟨fun a b => some (.int (a + b)), fun x y => some (x.add y), Decimal.add?⟩

def subtraction : Operation :=
  ⟨fun a b => some (.int (a - b)), fun x y => some (x.sub y), Decimal.sub?⟩

def multiplication : Operation :=
  ⟨fun a b => some (.int (a * b)), fun x y => some (x.mul y), Decimal.mul?⟩

def division : Operation :=
  ⟨fun a b => if b = 0 then none else (Binary64.ofQuotient? a b).map .float,
    Binary64.div?, Decimal.div?⟩

/-- The remainder of whole numbers takes the sign of the divisor. -/
def remainder : Operation :=
  ⟨fun a b => if b = 0 then none else some (.int (Int.fmod a b)), Binary64.mod?, Decimal.mod?⟩

/-! ## Text -/

def text? : Number → Option String
  | .int n => Text.intText? n
  | .float x => some x.toText
  | .decimal d => some d.toText

/-- The text of a number in output: a double without a fraction is written as a whole
number. -/
def outputText? : Number → Option String
  | .int n => Text.intText? n
  | .float x =>
    match x.toInt? with
    | some n => Text.intText? n
    | none => some x.toText
  | .decimal d => some d.toText

end Number
end Quill
