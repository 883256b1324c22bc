import Mathlib.Data.Rat.Floor
import Quill.Proofs.Number.Worth

/-!
Numbers without their fractions.

A double or a decimal is cut at its point as the rational number that it is, towards zero.  An
infinity has no whole part, and neither has what is not a number.
-/

namespace Quill

def withoutFraction (q : ℚ) : ℤ := if q < 0 then -⌊-q⌋ else ⌊q⌋

theorem withoutFraction_intCast (n : ℤ) : withoutFraction n = n := by
  rw [withoutFraction, ← Int.cast_neg, Int.floor_intCast, Int.floor_intCast, neg_neg, ite_self]

/-- What is left behind a sign is the whole part of the magnitude. -/
theorem withoutFraction_signed (negative : Bool) {x : ℚ} (hx : 0 ≤ x) :
    withoutFraction (signed negative x) = if negative then -⌊x⌋ else ⌊x⌋ := by
  cases negative with
  | false => exact if_neg (not_lt.mpr hx)
  | true =>
    show withoutFraction (-x) = -⌊x⌋
    rw [withoutFraction, neg_neg]
    split
    · rfl
    · next hzero =>
      obtain rfl : x = 0 := by linarith
      rw [neg_zero, Int.floor_zero, neg_zero]

/-- The whole part of a coefficient with an exponent: the coefficient followed by zeros, or without
its last digits. -/
theorem floor_mul_zpow (base c : Nat) (e : Int) :
    ⌊(c : ℚ) * base ^ e⌋ =
      if 0 ≤ e then ((c * Nat.pow base e.toNat : Nat) : ℤ)
      else ((c / Nat.pow base (-e).toNat : Nat) : ℤ) := by
  split
  · next he =>
    obtain ⟨k, rfl⟩ := Int.eq_ofNat_of_zero_le he
    rw [Int.toNat_natCast, zpow_natCast, ← Nat.cast_pow, ← Nat.cast_mul, Int.floor_natCast]
    rfl
  · next he =>
    obtain ⟨k, rfl⟩ : ∃ k : Nat, e = -k := ⟨(-e).toNat, by omega⟩
    rw [neg_neg, Int.toNat_natCast, zpow_neg, zpow_natCast, ← Nat.cast_pow, ← div_eq_mul_inv,
      Rat.floor_natCast_div_natCast]
    rfl

theorem Binary64.wholePart_eq_floor (m : Nat) (e : Int) :
    (wholePart m e : ℤ) = ⌊(m : ℚ) * 2 ^ e⌋ := by
  have hfloor := floor_mul_zpow 2 m e
  rw [Nat.cast_ofNat] at hfloor
  rw [hfloor, wholePart, ratio]
  by_cases he : 0 ≤ e
  · rw [if_pos he, if_pos he]
    exact congrArg Int.ofNat (Nat.div_one _)
  · rw [if_neg he, if_neg he]

namespace Number

def truncate? : Number → Option Int
  | .int n => some n
  | .float x => x.truncate?
  | .decimal d => d.truncate?

/-- A number that stands for a rational one is cut as that is. -/
theorem truncate?_of_rational {n : Number} {q : ℚ} (h : n.worth? = some (.rational q)) :
    n.truncate? = some (withoutFraction q) := by
  cases n with
  | int n =>
    obtain rfl : (n : ℚ) = q := Worth.rational.inj (Option.some.inj h)
    rw [withoutFraction_intCast]
    rfl
  | float x =>
    cases x with
    | nan => cases h
    | inf s => cases h
    | finite s m e =>
      obtain rfl : signed s (m * 2 ^ e) = q := Worth.rational.inj (Option.some.inj h)
      rw [withoutFraction_signed s (by positivity), ← Binary64.wholePart_eq_floor]
      rfl
  | decimal d =>
    cases d with
    | nan s signaling payload => cases h
    | infinity s => cases h
    | finite s c e =>
      obtain rfl : signed s (c * 10 ^ e) = q := Worth.rational.inj (Option.some.inj h)
      have hfloor := floor_mul_zpow 10 c e
      rw [Nat.cast_ofNat] at hfloor
      rw [withoutFraction_signed s (by positivity), hfloor, truncate?, Decimal.truncate?]
      by_cases he : 0 ≤ e
      · rw [if_pos he, if_pos he]
        rfl
      · rw [if_neg he, if_neg he]
        rfl

/-- What has a whole part stands for a rational number. -/
theorem exists_rational_of_truncate? {n : Number} {k : Int} (h : n.truncate? = some k) :
    ∃ q, n.worth? = some (.rational q) := by
  cases n with
  | int n => exact ⟨_, rfl⟩
  | float x =>
    cases x with
    | finite s m e => exact ⟨_, rfl⟩
    | _ => cases h
  | decimal d =>
    cases d with
    | finite s c e => exact ⟨_, rfl⟩
    | _ => cases h

end Number
end Quill
