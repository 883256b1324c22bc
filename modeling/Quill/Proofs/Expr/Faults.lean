import Quill.Proofs.Expr.Outcomes
import Quill.Proofs.Value.Operator

/-!
When the evaluation of an expression fails.  There are two ways: an operator asks whether a
signaling decimal is true, or text is joined with a value whose output would hold too long a
numeral.  `Expr.Reaches` follows the parts of an expression that are evaluated, and evaluation
fails exactly when it reaches an operation that fails.
-/

namespace Quill

/-! ## Values without a truth or an output -/

namespace Value

def Signaling (v : Value) : Prop :=
  ∃ negative payload, v = .number (.decimal (.nan negative true payload))

theorem signaling_of_isSignaling {n : Number} (h : n.isSignaling = true) :
    (Value.number n).Signaling := by
  match n with
  | .decimal (.nan negative true payload) => exact ⟨negative, payload, rfl⟩

theorem truth_eq_none_iff {v : Value} : v.truth? = none ↔ v.Signaling := by
  constructor
  · intro h
    cases v with
    | number n =>
      by_cases hn : n.isSignaling = true
      · exact signaling_of_isSignaling hn
      · rw [show truth? (.number n) = n.truth? from rfl, Number.truth?, if_neg hn] at h
        cases h
    | _ => cases h
  · rintro ⟨negative, payload, rfl⟩
    rfl

theorem truth_result_eq_ok_iff {v : Value} {b : Bool} :
    v.truth.result = .ok b ↔ v.truth? = some b := by
  rw [truth_result]
  cases v.truth? <;> simp

theorem truth_result_eq_error_iff {v : Value} {f : Fault} :
    v.truth.result = .error f ↔ f = .signaling ∧ v.Signaling := by
  rw [truth_result, ← truth_eq_none_iff]
  cases v.truth? <;> simp [eq_comm]

end Value

namespace Expr

/-! ## Reaching a part -/

def GoesOn : Operator → Value → Prop
  | .and, v => v.truth? = some true
  | .or, v => v.truth? = some false
  | .compute _, _ => True

inductive Reaches (s : Scope) : Expr → Expr → Prop
  | self {e : Expr} : Reaches s e e
  | operand {e sub : Expr} : Reaches s e sub → Reaches s (.not e) sub
  | left {op : Operator} {left right sub : Expr} :
      Reaches s left sub → Reaches s (.binary op left right) sub
  | right {op : Operator} {left right sub : Expr} {v : Value} :
      outcome s left = .ok v → GoesOn op v → Reaches s right sub →
      Reaches s (.binary op left right) sub

inductive Raises (s : Scope) : Expr → Fault → Prop
  | not {e : Expr} {v : Value} :
      outcome s e = .ok v → v.Signaling → Raises s (.not e) .signaling
  | and {left right : Expr} {v : Value} :
      outcome s left = .ok v → v.Signaling → Raises s (.binary .and left right) .signaling
  | or {left right : Expr} {v : Value} :
      outcome s left = .ok v → v.Signaling → Raises s (.binary .or left right) .signaling
  | join {left right : Expr} {a b : Value} :
      outcome s left = .ok a → outcome s right = .ok b → BinaryOperator.JoinTooLong a b →
      Raises s (.binary (.compute .add) left right) .numeralTooLong

variable {s : Scope} {f : Fault}

theorem outcome_not_eq_error_iff {e : Expr} :
    outcome s (.not e) = .error f ↔ outcome s e = .error f ∨ Raises s (.not e) f := by
  rw [outcome_not, Outcome.bind_eq_error]
  refine or_congr_right ?_
  constructor
  · rintro ⟨v, hv, h⟩
    rcases Outcome.bind_eq_error.mp h with h | ⟨b, -, h⟩
    · obtain ⟨rfl, hsignaling⟩ := Value.truth_result_eq_error_iff.mp h
      exact .not hv hsignaling
    · cases h
  · intro h
    cases h with
    | not hv hsignaling =>
      exact ⟨_, hv, Outcome.bind_eq_error.mpr
        (.inl (Value.truth_result_eq_error_iff.mpr ⟨rfl, hsignaling⟩))⟩

/-- A choice goes on to its right operand when the left one has the truth `go`. -/
theorem choice_eq_error_iff {go : Bool} {left right : Expr} :
    (outcome s left >>= fun v => v.truth.result >>= fun b =>
        if b = go then outcome s right else .ok v) = .error f ↔
      outcome s left = .error f ∨
      (∃ v, outcome s left = .ok v ∧ v.truth? = some go ∧ outcome s right = .error f) ∨
      ∃ v, outcome s left = .ok v ∧ v.Signaling ∧ f = .signaling := by
  rw [Outcome.bind_eq_error]
  refine or_congr_right ?_
  constructor
  · rintro ⟨v, hv, h⟩
    rcases Outcome.bind_eq_error.mp h with h | ⟨b, hb, h⟩
    · obtain ⟨rfl, hsignaling⟩ := Value.truth_result_eq_error_iff.mp h
      exact .inr ⟨v, hv, hsignaling, rfl⟩
    · by_cases hgo : b = go
      · rw [if_pos hgo] at h
        rw [hgo] at hb
        exact .inl ⟨v, hv, Value.truth_result_eq_ok_iff.mp hb, h⟩
      · rw [if_neg hgo] at h
        cases h
  · rintro (⟨v, hv, hb, h⟩ | ⟨v, hv, hsignaling, rfl⟩)
    · refine ⟨v, hv, Outcome.bind_eq_error.mpr (.inr ⟨go, ?_, ?_⟩)⟩
      · exact Value.truth_result_eq_ok_iff.mpr hb
      · rw [if_pos rfl]
        exact h
    · exact ⟨v, hv, Outcome.bind_eq_error.mpr
        (.inl (Value.truth_result_eq_error_iff.mpr ⟨rfl, hsignaling⟩))⟩

theorem raises_and_iff {left right : Expr} :
    Raises s (.binary .and left right) f ↔
      ∃ v, outcome s left = .ok v ∧ v.Signaling ∧ f = .signaling := by
  constructor
  · intro h
    cases h with
    | and hv hsignaling => exact ⟨_, hv, hsignaling, rfl⟩
  · rintro ⟨v, hv, hsignaling, rfl⟩
    exact .and hv hsignaling

theorem raises_or_iff {left right : Expr} :
    Raises s (.binary .or left right) f ↔
      ∃ v, outcome s left = .ok v ∧ v.Signaling ∧ f = .signaling := by
  constructor
  · intro h
    cases h with
    | or hv hsignaling => exact ⟨_, hv, hsignaling, rfl⟩
  · rintro ⟨v, hv, hsignaling, rfl⟩
    exact .or hv hsignaling

theorem outcome_binary_eq_error_iff {op : Operator} {left right : Expr} :
    outcome s (.binary op left right) = .error f ↔
      outcome s left = .error f ∨
      (∃ v, outcome s left = .ok v ∧ GoesOn op v ∧ outcome s right = .error f) ∨
      Raises s (.binary op left right) f := by
  cases op with
  | and =>
    rw [outcome_and, raises_and_iff]
    exact choice_eq_error_iff
  | or =>
    rw [outcome_or, raises_or_iff]
    exact choice_eq_error_iff
  | compute op =>
    rw [outcome_compute, Outcome.bind_eq_error]
    refine or_congr_right ?_
    constructor
    · rintro ⟨a, ha, h⟩
      rcases Outcome.bind_eq_error.mp h with h | ⟨b, hb, h⟩
      · exact .inl ⟨a, ha, trivial, h⟩
      · obtain ⟨rfl, rfl, hjoin⟩ := BinaryOperator.apply_eq_error_iff.mp h
        exact .inr (.join ha hb hjoin)
    · rintro (⟨a, ha, -, h⟩ | h)
      · exact ⟨a, ha, Outcome.bind_eq_error.mpr (.inl h)⟩
      · cases h with
        | join ha hb hjoin =>
          exact ⟨_, ha, Outcome.bind_eq_error.mpr
            (.inr ⟨_, hb, BinaryOperator.apply_eq_error_iff.mpr ⟨rfl, rfl, hjoin⟩⟩)⟩

/-- Evaluation fails exactly when it reaches an operation that does. -/
theorem outcome_eq_error_iff {e : Expr} :
    outcome s e = .error f ↔ ∃ sub, Reaches s e sub ∧ Raises s sub f := by
  -- What is reached lies in an operand that is evaluated, or is the expression itself.
  induction e with
  | literal l =>
    rw [outcome_literal]
    constructor
    · intro h
      cases h
    · rintro ⟨sub, hreach, hraise⟩
      cases hreach
      cases hraise
  | path p =>
    rw [outcome_path]
    constructor
    · intro h
      cases h
    · rintro ⟨sub, hreach, hraise⟩
      cases hreach
      cases hraise
  | not e ih =>
    rw [outcome_not_eq_error_iff, ih]
    constructor
    · rintro (⟨sub, hreach, hraise⟩ | hraise)
      · exact ⟨sub, .operand hreach, hraise⟩
      · exact ⟨_, .self, hraise⟩
    · rintro ⟨sub, hreach, hraise⟩
      cases hreach with
      | self => exact .inr hraise
      | operand hreach => exact .inl ⟨sub, hreach, hraise⟩
  | binary op left right ihLeft ihRight =>
    rw [outcome_binary_eq_error_iff, ihLeft, ihRight]
    constructor
    · rintro (⟨sub, hreach, hraise⟩ | ⟨v, hv, hgoes, sub, hreach, hraise⟩ | hraise)
      · exact ⟨sub, .left hreach, hraise⟩
      · exact ⟨sub, .right hv hgoes hreach, hraise⟩
      · exact ⟨_, .self, hraise⟩
    · rintro ⟨sub, hreach, hraise⟩
      cases hreach with
      | self => exact .inr (.inr hraise)
      | left hreach => exact .inl ⟨sub, hreach, hraise⟩
      | right hv hgoes hreach => exact .inr (.inl ⟨_, hv, hgoes, sub, hreach, hraise⟩)

/-! ## Quiet scopes -/

/-- Neither literals nor operators make signaling decimals. -/
theorem kept_not_signaling : Kept fun v => ¬ v.Signaling where
  literal l := by
    rintro ⟨negative, payload, h⟩
    cases l <;> cases h
  operator op a b v _ _ h := by
    have hmakes := BinaryOperator.apply_makes h
    refine hmakes.everywhere ?_
    rintro ⟨negative, payload, rfl⟩
    cases hmakes with
    | number hn => cases hn

/-- An expression fails exactly when its evaluation reaches an operation that fails, and the
truth of its value is unknown only if the value is a signaling decimal.  Where the scope holds no
signaling decimal at any depth, the one fault left is that of joining text with too long a
numeral, and the value has a truth. -/
theorem eval_faults (s : Scope) (e : Expr) :
    (∀ f, (eval s e).result = .error f ↔ ∃ sub, Reaches s e sub ∧ Raises s sub f) ∧
    (∀ v, (eval s e).result = .ok v → (v.truth? = none ↔ v.Signaling)) ∧
    ((s.Everywhere fun v => ¬ v.Signaling) →
      (∀ f, (eval s e).result = .error f → f = .numeralTooLong) ∧
      ∀ v, (eval s e).result = .ok v → ∃ b, v.truth? = some b) := by
  refine ⟨fun f => outcome_eq_error_iff, fun _ _ => Value.truth_eq_none_iff, ?_⟩
  intro hs
  -- The values that operators ask about are values of parts of the expression.
  have quiet : ∀ {e : Expr} {v : Value}, outcome s e = .ok v → ¬ v.Signaling :=
    fun h => (outcome_everywhere kept_not_signaling hs h).self
  constructor
  · intro f h
    obtain ⟨sub, -, hraise⟩ := outcome_eq_error_iff.mp h
    cases hraise with
    | not hv hsignaling => exact absurd hsignaling (quiet hv)
    | and hv hsignaling => exact absurd hsignaling (quiet hv)
    | or hv hsignaling => exact absurd hsignaling (quiet hv)
    | join => rfl
  · intro v h
    have htruth : v.truth? ≠ none := fun hnone => quiet h (Value.truth_eq_none_iff.mp hnone)
    exact Option.ne_none_iff_exists'.mp htruth

/-- A signaling decimal has no negation. -/
example : (eval ⟨[("x", .number (.decimal (.nan false true 0)))], []⟩
    (.not (.path (.single "x")))).result = .error .signaling := rfl

end Expr
end Quill
