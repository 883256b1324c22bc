import Quill.Expr.Eval
import Quill.Proofs.Outcome
import Quill.Proofs.Value.Inside

/-!
What expressions come to.  `Expr.outcome` is the value of an expression in a scope, or the fault
that its evaluation ends in, without the events on the way; its equations follow the expression.
A property of values is kept by evaluation if literals have it and operators keep it.
-/

namespace Quill

theorem Trace.result_bind {ε α β : Type} (t : Trace ε α) (f : α → Trace ε β) :
    (t >>= f).result = (t.result >>= fun a => (f a).result) := by
  cases h : t.result with
  | ok a => rw [Trace.bind_of_ok h, Outcome.ok_bind]
  | error e => rw [Trace.bind_of_error h, Outcome.error_bind]

theorem Value.truth_result (v : Value) :
    v.truth.result = match v.truth? with
      | some b => .ok b
      | none => .error .signaling := by
  rw [Value.truth]
  cases v.truth? <;> rfl

namespace Expr

def outcome (s : Scope) (e : Expr) : Except Fault Value := (eval s e).result

variable {s : Scope}

theorem outcome_literal (l : Literal) : outcome s (.literal l) = .ok l.value := rfl

theorem outcome_path (p : Path) : outcome s (.path p) = .ok ((s.resolve? p).getD .null) := by
  rw [outcome, eval_path, Trace.result_bind, Path.find]
  cases s.resolve? p <;> rfl

theorem outcome_not (e : Expr) :
    outcome s (.not e) = (outcome s e >>= fun v => v.truth.result >>= fun b => .ok (.bool !b)) := by
  simp only [outcome, eval_not, Trace.result_bind]
  rfl

theorem outcome_and (left right : Expr) :
    outcome s (.binary .and left right) = (outcome s left >>= fun v =>
      v.truth.result >>= fun b => if b then outcome s right else .ok v) := by
  rw [outcome, eval_binary, Trace.result_bind]
  refine congrArg _ (funext fun v => ?_)
  rw [Operator.apply, Trace.result_bind]
  refine congrArg _ (funext fun b => ?_)
  cases b <;> rfl

theorem outcome_or (left right : Expr) :
    outcome s (.binary .or left right) = (outcome s left >>= fun v =>
      v.truth.result >>= fun b => if b = false then outcome s right else .ok v) := by
  rw [outcome, eval_binary, Trace.result_bind]
  refine congrArg _ (funext fun v => ?_)
  rw [Operator.apply, Trace.result_bind]
  refine congrArg _ (funext fun b => ?_)
  cases b <;> rfl

theorem outcome_compute (op : BinaryOperator) (left right : Expr) :
    outcome s (.binary (.compute op) left right) = (outcome s left >>= fun a =>
      outcome s right >>= fun b => op.apply a b) := by
  rw [outcome, eval_binary, Trace.result_bind]
  refine congrArg _ (funext fun a => ?_)
  rw [Operator.apply, Trace.result_bind]
  rfl

/-! ## Properties kept by evaluation -/

/-- A property that literals have, and that operators give to their results when their operands
have it throughout. -/
structure Kept (p : Value → Prop) : Prop where
  literal : ∀ l : Literal, p l.value
  operator : ∀ (op : BinaryOperator) {a b v : Value}, a.Everywhere p → b.Everywhere p →
    op.apply a b = .ok v → v.Everywhere p

/-- What is kept holds of the value of an expression if it holds of all that the scope knows. -/
theorem outcome_everywhere {p : Value → Prop} (hp : Kept p) (hs : s.Everywhere p) {e : Expr}
    {v : Value} (h : outcome s e = .ok v) : v.Everywhere p := by
  have literal : ∀ l : Literal, l.value.Everywhere p := by
    intro l
    refine Value.everywhere_of_single (hp.literal l) (by cases l <;> rfl) ?_
    intro entries hl
    cases l <;> cases hl
  induction e generalizing v with
  | literal l =>
    rw [outcome_literal] at h
    rw [← Except.ok.inj h]
    exact literal l
  | path path =>
    rw [outcome_path] at h
    cases h
    cases hpath : s.resolve? path with
    | none => exact literal .null
    | some u => exact hs.resolve hpath
  | not e ih =>
    rw [outcome_not] at h
    obtain ⟨u, -, h⟩ := Outcome.bind_eq_ok.mp h
    obtain ⟨b, -, h⟩ := Outcome.bind_eq_ok.mp h
    cases h
    exact literal (.bool !b)
  | binary op left right ihLeft ihRight =>
    cases op with
    | and =>
      rw [outcome_and] at h
      obtain ⟨u, hleft, h⟩ := Outcome.bind_eq_ok.mp h
      obtain ⟨b, -, h⟩ := Outcome.bind_eq_ok.mp h
      cases b with
      | true => exact ihRight h
      | false =>
        cases h
        exact ihLeft hleft
    | or =>
      rw [outcome_or] at h
      obtain ⟨u, hleft, h⟩ := Outcome.bind_eq_ok.mp h
      obtain ⟨b, -, h⟩ := Outcome.bind_eq_ok.mp h
      cases b with
      | true =>
        cases h
        exact ihLeft hleft
      | false => exact ihRight h
    | compute op =>
      rw [outcome_compute] at h
      obtain ⟨a, hleft, h⟩ := Outcome.bind_eq_ok.mp h
      obtain ⟨b, hright, h⟩ := Outcome.bind_eq_ok.mp h
      exact hp.operator op (ihLeft hleft) (ihRight hright) h

end Expr
end Quill
