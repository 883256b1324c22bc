import Mathlib.Algebra.Order.Field.Power
import Mathlib.Algebra.Order.Field.Rat
import Mathlib.Tactic.Linarith
import Mathlib.Tactic.Positivity
import Mathlib.Tactic.Ring
import Quill.Number

/-!
What numbers are worth.

A number of any kind stands for a rational number or for an infinity, unless it is not a number.
`Number.worth?` says for which one, and two numbers are equal exactly when it is the same.  The
comparison itself looks at normal forms, which are as good as the numbers they stand for: a
coefficient without trailing zeros leaves no choice of the exponent.
-/

namespace Quill

inductive Worth where
  | rational (q : ℚ)
  | infinite (negative : Bool)
  deriving DecidableEq

def signed (negative : Bool) (q : ℚ) : ℚ := if negative then -q else q

theorem signed_eq_zero {negative : Bool} {q : ℚ} : signed negative q = 0 ↔ q = 0 := by
  cases negative with
  | false => rfl
  | true => exact neg_eq_zero

namespace Exact

def worth : Exact → Worth
  | .finite negative c e => .rational (signed negative (c * 10 ^ e))
  | .infinite negative => .infinite negative

def IsNormal : Exact → Prop
  | .finite negative c e => c % 10 ≠ 0 ∨ negative = false ∧ c = 0 ∧ e = 0
  | .infinite _ => True

/-- Stripping zeros leaves the number what it is, and none behind. -/
theorem stripZeros_spec {fuel c : Nat} (hc : c ≠ 0) (hfuel : c < 2 ^ fuel) (e : Int) :
    (stripZeros fuel c e).1 % 10 ≠ 0 ∧
      ((stripZeros fuel c e).1 : ℚ) * 10 ^ (stripZeros fuel c e).2 = c * 10 ^ e := by
  induction fuel generalizing c e with
  | zero => omega
  | succ fuel ih =>
    rw [stripZeros]
    split
    · next hzero =>
      rw [Nat.pow_succ] at hfuel
      obtain ⟨hlast, hworth⟩ := ih (c := c / 10) (by omega) (by omega) (e + 1)
      refine ⟨hlast, hworth.trans ?_⟩
      have hten : (c : ℚ) = (c / 10 : Nat) * 10 := by
        exact_mod_cast (Nat.div_mul_cancel (Nat.dvd_of_mod_eq_zero hzero)).symm
      rw [hten, zpow_add_one₀ (by norm_num)]
      ring
    · next hlast => exact ⟨hlast, rfl⟩

theorem isNormal_normal (negative : Bool) (c : Nat) (e : Int) : (normal negative c e).IsNormal := by
  rw [normal]
  split
  · exact .inr ⟨rfl, rfl, rfl⟩
  · next hc => exact .inl (stripZeros_spec hc Nat.lt_log2_self e).1

theorem worth_normal (negative : Bool) (c : Nat) (e : Int) :
    (normal negative c e).worth = .rational (signed negative (c * 10 ^ e)) := by
  rw [normal]
  split
  · next hc => simp [hc, worth, signed]
  · next hc => exact congrArg _ (congrArg _ (stripZeros_spec hc Nat.lt_log2_self e).2)

/-- A coefficient without trailing zeros stands at the greatest exponent that there is. -/
theorem exponent_le {c d : Nat} {e f : Int} (hd : d % 10 ≠ 0)
    (h : (c : ℚ) * 10 ^ e = d * 10 ^ f) : e ≤ f := by
  by_contra hlt
  obtain ⟨k, rfl⟩ : ∃ k : Nat, e = (k + 1 : Nat) + f := ⟨(e - f - 1).toNat, by omega⟩
  rw [zpow_add₀ (by norm_num), zpow_natCast, ← mul_assoc] at h
  have hshift := mul_right_cancel₀ (by positivity : (10 : ℚ) ^ f ≠ 0) h
  have hcast : c * 10 ^ (k + 1) = d := by exact_mod_cast hshift
  rw [← hcast, Nat.pow_succ, ← Nat.mul_assoc] at hd
  exact hd (Nat.mul_mod_left _ 10)

theorem signed_injective {s t : Bool} {p q : ℚ} (hp : 0 < p) (hq : 0 < q)
    (h : signed s p = signed t q) : s = t ∧ p = q := by
  cases s with
  | false =>
    cases t with
    | false => exact ⟨rfl, h⟩
    | true =>
      have hneg : p = -q := h
      linarith
  | true =>
    cases t with
    | false =>
      have hneg : -p = q := h
      linarith
    | true => exact ⟨rfl, neg_injective h⟩

/-- Normal forms are equal when they are worth the same. -/
theorem IsNormal.eq_of_worth {x y : Exact} (hx : x.IsNormal) (hy : y.IsNormal)
    (h : x.worth = y.worth) : x = y := by
  cases x with
  | infinite s =>
    cases y with
    | infinite t =>
      cases h
      rfl
    | finite t d f => cases h
  | finite s c e =>
    cases y with
    | infinite t => cases h
    | finite t d f =>
      have hworth : signed s (c * 10 ^ e) = signed t (d * 10 ^ f) := Worth.rational.inj h
      have zero_iff : ∀ {r : Bool} {n : Nat} {k : Int},
          signed r ((n : ℚ) * 10 ^ k) = 0 ↔ n = 0 := by
        intro r n k
        have hpow : (10 : ℚ) ^ k ≠ 0 := by positivity
        rw [signed_eq_zero, mul_eq_zero_iff_right hpow, Nat.cast_eq_zero]
      have hzero : c = 0 ↔ d = 0 := by rw [← @zero_iff s c e, hworth, zero_iff]
      rcases hx with hc | ⟨rfl, rfl, rfl⟩
      · rcases hy with hd | ⟨-, rfl, -⟩
        · have hc0 : (0 : ℚ) < c := by exact_mod_cast (by omega : 0 < c)
          have hd0 : (0 : ℚ) < d := by exact_mod_cast (by omega : 0 < d)
          obtain ⟨rfl, hsize⟩ := signed_injective (by positivity) (by positivity) hworth
          obtain rfl := le_antisymm (exponent_le hd hsize) (exponent_le hc hsize.symm)
          have hcast : c = d := by
            exact_mod_cast mul_right_cancel₀ (by positivity : (10 : ℚ) ^ e ≠ 0) hsize
          rw [hcast]
        · exact absurd (hzero.mpr rfl) (by omega)
      · rcases hy with hd | ⟨rfl, rfl, rfl⟩
        · exact absurd (hzero.mp rfl) (by omega)
        · rfl

theorem worth_ofInt (n : Int) : (ofInt n).worth = .rational n := by
  rw [ofInt, worth_normal, zpow_zero, mul_one, Nat.cast_natAbs, signed]
  by_cases hn : n < 0
  · simp [hn, abs_of_neg hn]
  · simp [hn, abs_of_nonneg (not_lt.mp hn)]

/-- A power of two is a power of ten with a power of five in place of the exponent. -/
theorem five_pow_mul (k : Nat) : (5 : ℚ) ^ k * 10 ^ (-(k : Int)) = 2 ^ (-(k : Int)) := by
  rw [show (10 : ℚ) = 5 * 2 by norm_num, mul_zpow, zpow_neg, zpow_natCast, ← mul_assoc,
    mul_inv_cancel₀ (by positivity), one_mul]

end Exact

namespace Number

def worth? : Number → Option Worth
  | .int n => some (.rational n)
  | .float .nan => none
  | .float (.inf s) => some (.infinite s)
  | .float (.finite s m e) => some (.rational (signed s (m * 2 ^ e)))
  | .decimal (.nan ..) => none
  | .decimal (.infinity s) => some (.infinite s)
  | .decimal (.finite s c e) => some (.rational (signed s (c * 10 ^ e)))

/-- Numbers are compared by the normal forms of what they stand for. -/
theorem worth?_eq_map (n : Number) : n.worth? = n.amount?.map Exact.worth := by
  cases n with
  | int n => exact congrArg some (Exact.worth_ofInt n).symm
  | float x =>
    cases x with
    | nan => rfl
    | inf s => rfl
    | finite s m e =>
      refine congrArg some ?_
      split
      · next he =>
        obtain ⟨k, rfl⟩ := Int.eq_ofNat_of_zero_le he
        rw [Exact.worth_normal]
        simp
      · next he =>
        obtain ⟨k, rfl⟩ : ∃ k : Nat, e = -k := ⟨(-e).toNat, by omega⟩
        rw [Exact.worth_normal, neg_neg, Int.toNat_natCast, Nat.cast_mul, Nat.pow_eq, Nat.cast_pow,
          mul_assoc, Nat.cast_ofNat, Exact.five_pow_mul]
  | decimal d =>
    cases d with
    | nan s signaling payload => rfl
    | infinity s => rfl
    | finite s c e => exact congrArg some (Exact.worth_normal s c e).symm

theorem isNormal_of_amount? {n : Number} {x : Exact} (h : n.amount? = some x) : x.IsNormal := by
  cases n with
  | int n =>
    cases h
    exact Exact.isNormal_normal _ _ _
  | float y =>
    cases y with
    | nan => cases h
    | inf s =>
      cases h
      trivial
    | finite s m e =>
      obtain rfl := Option.some.inj h
      split
      · exact Exact.isNormal_normal _ _ _
      · exact Exact.isNormal_normal _ _ _
  | decimal d =>
    cases d with
    | nan s signaling payload => cases h
    | infinity s =>
      cases h
      trivial
    | finite s c e =>
      cases h
      exact Exact.isNormal_normal _ _ _

theorem worth?_eq_none_iff {n : Number} : n.worth? = none ↔ n.isNaN = true := by
  cases n with
  | int n => simp [worth?, isNaN]
  | float x => cases x <;> simp [worth?, isNaN, Binary64.isNaN]
  | decimal d => cases d <;> simp [worth?, isNaN, Decimal.isNaN]

theorem isSignaling_le_isNaN {n : Number} (h : n.isSignaling = true) : n.isNaN = true := by
  cases n with
  | decimal d =>
    cases d with
    | nan s signaling payload => rfl
    | _ => cases h
  | _ => cases h

theorem isSignaling_of_worth {n : Number} {x : Worth} (h : n.worth? = some x) :
    n.isSignaling = false := by
  rw [← Bool.not_eq_true]
  intro hsignaling
  rw [worth?_eq_none_iff.mpr (isSignaling_le_isNaN hsignaling)] at h
  cases h

/-- Numbers are equal when they stand for the same.  One that refuses the question stands for
nothing. -/
theorem equal?_iff {a b : Number} :
    a.equal? b = some true ↔ ∃ x, a.worth? = some x ∧ b.worth? = some x := by
  constructor
  · intro h
    rw [equal?] at h
    split at h
    · cases h
    · split at h
      · next x y ha hb =>
        obtain rfl : x = y := of_decide_eq_true (Option.some.inj h)
        rw [worth?_eq_map, worth?_eq_map, ha, hb]
        exact ⟨x.worth, rfl, rfl⟩
      · cases h
  · rintro ⟨z, ha, hb⟩
    have hquiet : (a.isSignaling || b.isSignaling) = false := by
      rw [isSignaling_of_worth ha, isSignaling_of_worth hb]
      rfl
    rw [worth?_eq_map] at ha hb
    obtain ⟨x, hx, rfl⟩ := Option.map_eq_some_iff.mp ha
    obtain ⟨y, hy, hworth⟩ := Option.map_eq_some_iff.mp hb
    obtain rfl : y = x :=
      (isNormal_of_amount? hy).eq_of_worth (isNormal_of_amount? hx) hworth
    simp [equal?, hquiet, hx, hy]

theorem isZero_iff {n : Number} : n.isZero = true ↔ n.worth? = some (.rational 0) := by
  cases n with
  | int n => simp [worth?, isZero]
  | float x =>
    cases x with
    | finite s m e => simp [worth?, isZero, Binary64.isZero, signed_eq_zero, zpow_ne_zero]
    | _ => simp [worth?, isZero, Binary64.isZero]
  | decimal d =>
    cases d with
    | finite s c e => simp [worth?, isZero, Decimal.isZero, signed_eq_zero, zpow_ne_zero]
    | _ => simp [worth?, isZero, Decimal.isZero]

/-- A number counts as true unless it stands for zero. -/
theorem truth?_of_worth {n : Number} {x : Worth} (h : n.worth? = some x) :
    n.truth? = some (decide (x ≠ .rational 0)) := by
  have hnan : n.isNaN = false := by
    rw [← Bool.not_eq_true, ← worth?_eq_none_iff, h]
    simp
  have hquiet : n.isSignaling = false := isSignaling_of_worth h
  have hzero : n.isZero = decide (x = .rational 0) := by
    rw [Bool.eq_iff_iff, isZero_iff, h, Option.some.injEq, decide_eq_true_eq]
  simp [truth?, hquiet, hnan, hzero]

end Number
end Quill
