import Quill.Expr.Eval

/-!
Evaluation in a loop and evaluation by plain recursion.

`Expr.evalPlain` follows the tree: it evaluates the left operand, then, where that does not decide
the result, the right one, and applies the operator.  Evaluation walks down the left side of the
tree first and works through the operators that it met from the inside out.  Both give the same
result or the same fault, with the same events in the same order, and at each operator on the left
side the loop stands where plain recursion stands after the part of the expression up to there.
-/

namespace Quill
namespace Expr

/-- The value of an expression by recursion on the tree.  The right operand of the two operators
that choose is left alone where the left one decides. -/
def evalPlain (s : Scope) : Expr → Trace Fault Value
  | .literal l => pure l.value
  | .path p =>
    match s.resolve? p with
    | some v => pure v
    | none => ⟨[.lookupFailed p], .ok .null⟩
  | .not operand => do
    let v ← evalPlain s operand
    return .bool !(← v.truth)
  | .binary .and left right => do
    let v ← evalPlain s left
    if ← v.truth then evalPlain s right else return v
  | .binary .or left right => do
    let v ← evalPlain s left
    if ← v.truth then return v else evalPlain s right
  | .binary (.compute op) left right => do
    let v ← evalPlain s left
    let w ← evalPlain s right
    .ofExcept (op.apply v w)

abbrev Step := Operator × Expr

def leftmost : Expr → Expr
  | .binary _ left _ => leftmost left
  | e => e

def spine : Expr → List Step
  | .binary op left right => spine left ++ [(op, right)]
  | _ => []

/-- The expression that steps make of a first operand. -/
def build (first : Expr) (steps : List Step) : Expr :=
  steps.foldl (fun left step => .binary step.1 left step.2) first

/-- Steps applied to a value, one after another, where operands have the values given. -/
def replay (value : Expr → Trace Fault Value) (steps : List Step) (v : Value) :
    Trace Fault Value :=
  steps.foldlM (fun v step => step.1.apply v fun _ => value step.2) v

theorem build_append (first : Expr) (done rest : List Step) :
    build first (done ++ rest) = build (build first done) rest := List.foldl_append

theorem build_spine (e : Expr) : build e.leftmost e.spine = e := by
  induction e with
  | binary op left right ih =>
    rw [leftmost, spine, build_append, ih]
    rfl
  | _ => rfl

variable (s : Scope)

theorem evalPlain_binary (op : Operator) (left right : Expr) :
    evalPlain s (.binary op left right) =
      (evalPlain s left >>= fun v => op.apply v fun _ => evalPlain s right) := by
  rcases op with _ | _ | op
  · rfl
  · rfl
  · rfl

theorem eval_eq_evalPlain (e : Expr) : eval s e = evalPlain s e := by
  induction e with
  | literal l => rfl
  | path p =>
    rw [eval_path, Path.find, evalPlain]
    cases s.resolve? p with
    | some v => rfl
    | none => rfl
  | not operand ih =>
    rw [eval_not, ih]
    rfl
  | binary op left right ihLeft ihRight =>
    rw [eval_binary, evalPlain_binary, ihLeft, ihRight]

/-- An expression that steps make is evaluated by working through the steps. -/
theorem eval_build (first : Expr) (steps : List Step) :
    eval s (build first steps) = eval s first >>= replay (eval s) steps := by
  induction steps generalizing first with
  | nil => exact (bind_pure (eval s first)).symm
  | cons step rest ih =>
    show eval s (build (.binary step.1 first step.2) rest) = _
    rw [ih, eval_binary, bind_assoc]
    rfl

/-- Evaluation gives the result, or the fault, and the events that plain recursion gives.  It
works through the steps of the left side, and stands after each of them where plain recursion ends
on the part of the expression up to there. -/
theorem eval_recursive (e : Expr) :
    eval s e = evalPlain s e ∧
    ∀ n : Nat, eval s e =
      evalPlain s (build e.leftmost (e.spine.take n)) >>= replay (evalPlain s) (e.spine.drop n) := by
  refine ⟨eval_eq_evalPlain s e, fun n => ?_⟩
  have hplain : evalPlain s = eval s := funext fun e => (eval_eq_evalPlain s e).symm
  rw [hplain, ← eval_build, ← build_append, List.take_append_drop, build_spine]

end Expr
end Quill
