import Quill.Proofs.Number.Signaling
import Quill.Proofs.Value.Inside
import Quill.Proofs.Value.Output
import Quill.Value.Operator

/-!
What the operators make of two values, and the one way in which they fail.
-/

namespace Quill
namespace BinaryOperator

/-! ## Failing -/

def JoinTooLong (a b : Value) : Prop :=
  a.kind = .string ∧ b.output = .error .numeralTooLong ∨
    b.kind = .string ∧ a.output = .error .numeralTooLong

theorem plus_eq_error_iff {a b : Value} {f : Fault} :
    plus a b = .error f ↔ f = .numeralTooLong ∧ JoinTooLong a b := by
  have joined : ∀ {v : Value} {g : Marked → Value},
      ((v.output >>= fun t => .ok (g t)) = .error f) ↔
        f = .numeralTooLong ∧ v.output = .error .numeralTooLong := by
    intro v g
    cases hv : v.output with
    | ok t => simp [Outcome.ok_bind]
    | error e =>
      rw [Value.output_error hv, Outcome.error_bind]
      simp [eq_comm]
  by_cases ha : a.kind = .string
  · cases a with
    | text t =>
      rw [show plus (.text t) b = (b.output >>= fun u => .ok (.text (t.append u))) from rfl,
        joined]
      simp [JoinTooLong, Value.kind, Value.output]
    | _ => cases ha
  by_cases hb : b.kind = .string
  · cases b with
    | text t =>
      have hplus : plus a (.text t) = (a.output >>= fun u => .ok (.text (u.append t))) := by
        cases a <;> rfl
      rw [hplus, joined]
      simp [JoinTooLong, Value.kind, Value.output]
    | _ => cases hb
  · have hplus : plus a b = .ok (arithmetic Number.addition a b) := by
      cases a <;> first
        | exact absurd rfl ha
        | (cases b <;> first
            | rfl
            | exact absurd rfl hb)
    rw [hplus]
    simp [JoinTooLong, ha, hb]

theorem apply_eq_error_iff {op : BinaryOperator} {a b : Value} {f : Fault} :
    op.apply a b = .error f ↔ op = .add ∧ f = .numeralTooLong ∧ JoinTooLong a b := by
  cases op with
  | add =>
    rw [apply, plus_eq_error_iff]
    simp
  | _ => simp [apply]

/-! ## Results -/

/-- What an operator makes of two values: null, a truth value, a number that is not signaling,
or the outputs of both joined. -/
inductive Makes (a b : Value) : Value → Prop
  | null : Makes a b .null
  | bool {r : Bool} : Makes a b (.bool r)
  | number {n : Number} : n.isSignaling = false → Makes a b (.number n)
  | text {s t : Marked} : a.output = .ok s → b.output = .ok t → Makes a b (.text (s.append t))

theorem arithmetic_makes {op : Number.Operation} (h : op.Quiet) (a b : Value) :
    Makes a b (arithmetic op a b) := by
  unfold arithmetic
  split
  · rename_i x y
    cases hn : Number.calculate? op x y with
    | none => exact .null
    | some n => exact .number (h.calculate hn)
  · exact .null

theorem ordered_makes (test : Ordering → Bool) (a b : Value) : Makes a b (ordered test a b) := by
  unfold ordered
  split
  · rename_i x y
    cases Number.related? test x y with
    | none => exact .null
    | some r => exact .bool
  · exact .bool
  · exact .null

theorem plus_makes {a b v : Value} (h : plus a b = .ok v) : Makes a b v := by
  unfold plus at h
  split at h
  · obtain ⟨t, ht, h⟩ := Outcome.bind_eq_ok.mp h
    cases h
    exact .text rfl ht
  · obtain ⟨t, ht, h⟩ := Outcome.bind_eq_ok.mp h
    cases h
    exact .text ht rfl
  · cases h
    exact arithmetic_makes Number.quiet_addition a b

theorem apply_makes {op : BinaryOperator} {a b v : Value} (h : op.apply a b = .ok v) :
    Makes a b v := by
  cases op with
  | add => exact plus_makes h
  | sub =>
    cases h
    exact arithmetic_makes Number.quiet_subtraction a b
  | mul =>
    cases h
    exact arithmetic_makes Number.quiet_multiplication a b
  | div =>
    cases h
    exact arithmetic_makes Number.quiet_division a b
  | mod =>
    cases h
    exact arithmetic_makes Number.quiet_remainder a b
  | lt | le | gt | ge =>
    cases h
    exact ordered_makes _ a b
  | eq | ne =>
    cases h
    exact .bool

/-- What operators make has no parts. -/
theorem Makes.everywhere {p : Value → Prop} {a b v : Value} (h : Makes a b v) (hv : p v) :
    v.Everywhere p := by
  refine Value.everywhere_of_single hv (by cases h <;> rfl) ?_
  intro entries hmap
  subst hmap
  cases h

end BinaryOperator
end Quill
