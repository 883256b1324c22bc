import Quill.Trace
import Quill.Value.Operator

/-!
Expressions: literals, paths, negation and binary operators, as trees.  Parentheses are not
part of the tree.
-/

namespace Quill

inductive Literal where
  | null
  | bool (b : Bool)
  | int (n : Int)
  | float (x : Binary64)
  | text (s : String)
  deriving DecidableEq, Repr

namespace Literal

def value : Literal → Value
  | .null => .null
  | .bool b => .bool b
  | .int n => .number (.int n)
  | .float x => .number (.float x)
  | .text s => .ofString s

def quoted : Literal → String
  | .null => "None"
  | .bool b => if b then "True" else "False"
  | .int n => Text.intText n
  | .float x => x.toText
  | .text s => Text.quoted s

def ofWord? (word : String) : Option Literal :=
  if word = "true" then some (.bool true)
  else if word = "false" then some (.bool false)
  else if word = "null" then some .null
  else none

end Literal

/-- A binary operator: one of the two that choose between their operands, or one that
computes with both. -/
inductive Operator where
  | or
  | and
  | compute (op : BinaryOperator)
  deriving DecidableEq, Repr

namespace Operator

def symbol : Operator → String
  | .or => "||"
  | .and => "&&"
  | .compute op => op.symbol

def all : List Operator := [.or, .and] ++ BinaryOperator.all.map .compute

def ofSymbol? (s : String) : Option Operator := all.find? fun op => op.symbol == s

/-- How tightly an operator binds, loosest first. -/
def level : Operator → Nat
  | .or => 0
  | .and => 1
  | .compute .eq => 2
  | .compute .ne => 2
  | .compute .lt => 3
  | .compute .le => 3
  | .compute .gt => 3
  | .compute .ge => 3
  | .compute .add => 4
  | .compute .sub => 4
  | .compute .mul => 5
  | .compute .div => 5
  | .compute .mod => 5

def levels : Nat := 6

theorem ofSymbol?_symbol (op : Operator) : ofSymbol? op.symbol = some op := by
  rcases op with _ | _ | op
  · rfl
  · rfl
  · cases op <;> rfl

end Operator

inductive Expr where
  | literal (l : Literal)
  | path (p : Path)
  | not (operand : Expr)
  | binary (op : Operator) (left right : Expr)
  deriving DecidableEq, Repr

/-- An expression with every operation in parentheses.  An operation is quoted around its operands,
and there is room for so many quotations inside one another: a chain of operators has one for each
of its terms. -/
def Expr.quoted? : Nat → Expr → Option String
  | 0, _ => none
  | _ + 1, .literal l => some ("<Literal: " ++ l.quoted ++ ">")
  | _ + 1, .path p => some ("<Path: " ++ p.text ++ ">")
  | room + 1, .not operand => do
    let inner ← operand.quoted? room
    return "(! " ++ inner ++ ")"
  | room + 1, .binary op left right => do
    let first ← left.quoted? room
    let second ← right.quoted? room
    return "(" ++ first ++ " " ++ op.symbol ++ " " ++ second ++ ")"

end Quill
