import Quill.Value.Text

/-!
The operators of expressions.  An operator that makes no sense for its operands gives null;
the only fault is that of joining a whole number too long for text to a text.
-/

namespace Quill

inductive BinaryOperator where
  | add
  | sub
  | mul
  | div
  | mod
  | lt
  | le
  | gt
  | ge
  | eq
  | ne
  deriving DecidableEq, Repr

namespace BinaryOperator

def symbol : BinaryOperator → String
  | .add => "+"
  | .sub => "-"
  | .mul => "*"
  | .div => "/"
  | .mod => "%"
  | .lt => "<"
  | .le => "<="
  | .gt => ">"
  | .ge => ">="
  | .eq => "=="
  | .ne => "!="

def all : List BinaryOperator := [.add, .sub, .mul, .div, .mod, .lt, .le, .gt, .ge, .eq, .ne]

def ofSymbol? (s : String) : Option BinaryOperator := all.find? fun op => op.symbol == s

/-- Arithmetic on two numbers; null for other operands and where there is no result. -/
def arithmetic (op : Number.Operation) : Value → Value → Value
  | .number a, .number b =>
    match Number.calculate? op a b with
    | some n => .number n
    | none => .null
  | _, _ => .null

def compareText (a b : String) : Ordering :=
  if a = b then .eq else if a < b then .lt else .gt

def ordered (test : Ordering → Bool) : Value → Value → Value
  | .number a, .number b =>
    match Number.related? test a b with
    | some r => .bool r
    | none => .null
  | .text a, .text b => .bool (test (compareText a.text b.text))
  | _, _ => .null

/-- Addition joins the output texts when one of the operands is a text. -/
def plus (a b : Value) : Except Fault Value :=
  match a, b with
  | .text s, _ => do
    let t ← b.output
    return .text (s.append t)
  | _, .text t => do
    let s ← a.output
    return .text (s.append t)
  | _, _ => .ok (arithmetic Number.addition a b)

def apply (op : BinaryOperator) (a b : Value) : Except Fault Value :=
  match op with
  | .add => plus a b
  | .sub => .ok (arithmetic Number.subtraction a b)
  | .mul => .ok (arithmetic Number.multiplication a b)
  | .div => .ok (arithmetic Number.division a b)
  | .mod => .ok (arithmetic Number.remainder a b)
  | .lt => .ok (ordered (· == .lt) a b)
  | .le => .ok (ordered (· != .gt) a b)
  | .gt => .ok (ordered (· == .gt) a b)
  | .ge => .ok (ordered (· != .lt) a b)
  | .eq => .ok (.bool (a.equal b))
  | .ne => .ok (.bool (!a.equal b))

end BinaryOperator
end Quill
