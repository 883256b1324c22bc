import Quill.Expr

/-!
The value of an expression in a scope.

A chain of operators such as `1 + 2 + 3` leans to the left.  `Expr.eval` walks down its
left side, keeping what is still to be done, and comes back up in a loop; `eval_binary`
says that the result is what evaluating the left operand first and then applying the
operator gives.
-/

namespace Quill

def Value.truth (v : Value) : Trace Fault Bool :=
  match v.truth? with
  | some b => pure b
  | none => .fail .signaling

/-- The value of a path; a path that leads nowhere leaves an event. -/
def Path.find (s : Scope) (p : Path) : Trace Fault (Option Value) :=
  match s.resolve? p with
  | some v => pure (some v)
  | none => ⟨[.lookupFailed p], .ok none⟩

/-- An operator applied to the value of its left operand.  The two that choose look at the
right operand only when the left one does not decide. -/
def Operator.apply (op : Operator) (left : Value) (right : Unit → Trace Fault Value) :
    Trace Fault Value :=
  match op with
  | .and => do if ← left.truth then right () else return left
  | .or => do if ← left.truth then return left else right ()
  | .compute op => do
    let v ← right ()
    .ofExcept (op.apply left v)

namespace Expr

/-- What is still to be done with a value: operators with their right operands, innermost
first. -/
abbrev Pending := List (Operator × (Unit → Trace Fault Value))

def resume : Pending → Value → Trace Fault Value
  | [], v => pure v
  | (op, right) :: rest, v => do resume rest (← op.apply v right)

/-- The value of an expression after what is pending has been applied to it. -/
def evalThen (s : Scope) : Expr → Pending → Trace Fault Value
  | .literal l, pending => resume pending l.value
  | .path p, pending => do resume pending ((← p.find s).getD .null)
  | .not operand, pending => do
    let v ← evalThen s operand []
    let b ← v.truth
    resume pending (.bool !b)
  | .binary op left right, pending =>
    evalThen s left ((op, fun _ => evalThen s right []) :: pending)

/-- The value of an expression; a path that leads nowhere counts as null. -/
def eval (s : Scope) (e : Expr) : Trace Fault Value := evalThen s e []

/-! ## Laws -/

/-- What is pending is applied to the value of the expression. -/
theorem evalThen_eq (s : Scope) (e : Expr) (pending : Pending) :
    evalThen s e pending = eval s e >>= resume pending := by
  induction e generalizing pending with
  | literal l => simp [eval, evalThen, resume]
  | path p => simp [eval, evalThen, resume]
  | not operand ih => simp [eval, evalThen, resume]
  | binary op left right ihLeft ihRight =>
    simp only [eval, evalThen]
    rw [ihLeft, ihLeft [_]]
    simp [resume]

@[simp] theorem eval_literal (s : Scope) (l : Literal) :
    eval s (.literal l) = pure l.value := rfl

theorem eval_path (s : Scope) (p : Path) :
    eval s (.path p) = (p.find s >>= fun v => pure (v.getD .null)) := rfl

theorem eval_not (s : Scope) (e : Expr) :
    eval s (.not e) = (do return .bool !(← (← eval s e).truth)) := rfl

theorem eval_binary (s : Scope) (op : Operator) (left right : Expr) :
    eval s (.binary op left right) =
      (eval s left >>= fun v => op.apply v fun _ => eval s right) := by
  rw [eval, evalThen, evalThen_eq]
  simp [resume, eval]

end Expr
end Quill
