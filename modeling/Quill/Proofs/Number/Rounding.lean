import Mathlib.Algebra.Order.Floor.Semifield
import Mathlib.Data.Rat.Floor
import Quill.Proofs.Number.Worth
import Quill.Proofs.Text.Numerals

/-!
Rounding decimals to a fixed last digit.

Digits that fall off are rounded as the number itself is, as a rational one: up from a half.  There
is a result when what is kept has no more digits than the precision allows, and the shortcuts for
numbers that are too large or too small agree with that.
-/

namespace Quill

def roundAway (x : ℚ) : ℤ := if x < 0 then -⌊-x + 1 / 2⌋ else ⌊x + 1 / 2⌋

namespace Decimal

open Text

variable {s : Bool} {c : Nat} {e target : Int}

/-! ## Rounding up from a half -/

def kept (x : ℚ) : Nat := ⌊x + 1 / 2⌋₊

/-- A number with a sign is rounded behind its sign. -/
theorem roundAway_signed {x : ℚ} (hx : 0 ≤ x) :
    roundAway (Quill.signed s x) = if s then -(kept x : ℤ) else kept x := by
  have hfloor : (kept x : ℤ) = ⌊x + 1 / 2⌋ := Int.natCast_floor_eq_floor (by linarith)
  cases s with
  | false =>
    show roundAway x = kept x
    rw [roundAway, if_neg (not_lt.mpr hx), hfloor]
  | true =>
    show roundAway (-x) = -(kept x : ℤ)
    rw [roundAway, hfloor]
    split
    · rw [neg_neg]
    · next hzero =>
      obtain rfl : x = 0 := by linarith
      norm_num

theorem kept_natCast (n : Nat) : kept n = n := by
  rw [kept, Nat.floor_eq_iff (by positivity)]
  exact ⟨by linarith, by linarith⟩

theorem kept_of_lt_half {x : ℚ} (h : x < 1 / 2) : kept x = 0 := by
  rw [kept, Nat.floor_eq_zero]
  linarith

theorem le_kept {x : ℚ} {n : Nat} (h : (n : ℚ) ≤ x) : n ≤ kept x :=
  Nat.le_floor (by linarith)

/-- Digits that are dropped are rounded as a fraction is. -/
theorem dropDigits_awayFromZero (c places : Nat) :
    dropDigits .awayFromZero c places = kept ((c : ℚ) / 10 ^ places) := by
  have hunit : 0 < Nat.pow 10 places := Nat.pow_pos (by decide)
  have hsplit := Nat.div_add_mod c (Nat.pow 10 places)
  have hlt := Nat.mod_lt c hunit
  have hcast : (c : ℚ) / 10 ^ places + 1 / 2 =
      ((2 * c + Nat.pow 10 places : Nat) : ℚ) / ((2 * Nat.pow 10 places : Nat) : ℚ) := by
    have hpow : ((Nat.pow 10 places : Nat) : ℚ) = 10 ^ places := by
      rw [Nat.pow_eq]
      push_cast
      rfl
    push_cast
    rw [hpow]
    field_simp
  rw [kept, hcast, Nat.floor_div_eq_div, dropDigits]
  generalize Nat.pow 10 places = unit at *
  generalize c / unit = q at *
  generalize c % unit = r at *
  subst hsplit
  have hshift : 2 * (unit * q + r) + unit = (2 * r + unit) + 2 * unit * q := by ring
  rw [hshift, Nat.add_mul_div_left _ _ (by omega)]
  split
  · next hdown => rw [Nat.div_eq_of_lt (by omega), Nat.zero_add]
  · next hup =>
    rw [Nat.div_eq_of_lt_le (k := 1) (by omega) (by omega), Nat.add_comm]
    split
    · rfl
    · rfl

/-! ## The first digit -/

/-- The first digit says between which powers of ten a number is. -/
theorem pow_adjusted_le (hc : c ≠ 0) (e : Int) : (10 : ℚ) ^ adjusted c e ≤ c * 10 ^ e := by
  obtain ⟨k, hk⟩ : ∃ k, digitCount c = k + 1 :=
    ⟨digitCount c - 1, (Nat.sub_add_cancel (List.length_pos_iff.mpr Nat.toDigits_ne_nil)).symm⟩
  have hle : ((10 : ℚ) ^ k) ≤ c := by exact_mod_cast pow_le_of_digitCount hc hk
  have hadjusted : adjusted c e = k + e := by
    rw [adjusted, hk, Int.ofNat_eq_natCast]
    omega
  rw [hadjusted, zpow_add₀ (by norm_num), zpow_natCast]
  exact mul_le_mul_of_nonneg_right hle (by positivity)

theorem lt_pow_adjusted (c : Nat) (e : Int) : c * 10 ^ e < (10 : ℚ) ^ (adjusted c e + 1) := by
  have hlt : (c : ℚ) < 10 ^ digitCount c := by exact_mod_cast lt_pow_digitCount c
  have hadjusted : adjusted c e + 1 = digitCount c + e := by
    rw [adjusted, Int.ofNat_eq_natCast]
    omega
  rw [hadjusted, zpow_add₀ (by norm_num), zpow_natCast]
  exact mul_lt_mul_of_pos_right hlt (by positivity)

theorem adjusted_sub (c : Nat) (e target : Int) :
    adjusted c (e - target) = adjusted c e - target := by
  rw [adjusted, adjusted]
  omega

/-! ## Rounding to a last digit -/

/-- A coefficient that is followed by zeros, loses digits or is left out altogether becomes the
rounded number of units of the last digit. -/
theorem shifted_eq_kept (c : Nat) (e target : Int) :
    (if target ≤ e then c * Nat.pow 10 (e - target).toNat
      else if adjusted c e + 1 < target then 0
      else dropDigits .awayFromZero c (target - e).toNat) = kept (c * 10 ^ (e - target)) := by
  split
  case isTrue hle =>
    obtain ⟨k, hk⟩ := Int.eq_ofNat_of_zero_le (Int.sub_nonneg_of_le hle)
    have hcast : (c : ℚ) * 10 ^ (k : Int) = ((c * Nat.pow 10 k : Nat) : ℚ) := by
      rw [zpow_natCast, Nat.pow_eq]
      push_cast
      rfl
    rw [hk, hcast, kept_natCast, Int.toNat_natCast]
  case isFalse =>
    split
    case isTrue hsmall =>
      -- the number is below a tenth of the last digit
      have hhigh := lt_pow_adjusted c (e - target)
      rw [adjusted_sub] at hhigh
      have hpow : (10 : ℚ) ^ (adjusted c e - target + 1) ≤ 10 ^ (-1 : Int) :=
        zpow_le_zpow_right₀ (by norm_num) (by omega)
      have htenth : (10 : ℚ) ^ (-1 : Int) < 1 / 2 := by norm_num
      exact (kept_of_lt_half ((hhigh.trans_le hpow).trans htenth)).symm
    case isFalse =>
      obtain ⟨k, hk⟩ : ∃ k : Nat, target - e = k := ⟨(target - e).toNat, by omega⟩
      have hneg : e - target = -k := by omega
      rw [hk, Int.toNat_natCast, dropDigits_awayFromZero, hneg, zpow_neg, zpow_natCast,
        div_eq_mul_inv]

/-- What has its first digit far enough before the last one is too large for the precision. -/
theorem precision_le_kept (hc : c ≠ 0) (h : (precision : Int) ≤ adjusted c e - target) :
    Nat.pow 10 precision ≤ kept (c * 10 ^ (e - target)) := by
  have hlow := pow_adjusted_le hc (e - target)
  rw [adjusted_sub] at hlow
  refine le_kept (le_trans ?_ hlow)
  rw [Nat.pow_eq]
  push_cast
  rw [← zpow_natCast]
  exact zpow_le_zpow_right₀ (by norm_num) h

/-- A number is rounded to a last digit as the rational number is, unless too many digits are
kept. -/
theorem quantize?_awayFromZero (htarget : target ≤ 0) :
    quantize? .awayFromZero target (.finite s c e) =
      if kept (c * 10 ^ (e - target)) < Nat.pow 10 precision then
        some (.finite s (kept (c * 10 ^ (e - target))) target)
      else none := by
  rw [quantize?]
  split
  case isTrue hzero =>
    subst hzero
    rw [Nat.cast_zero, zero_mul, kept_of_lt_half (by norm_num), if_pos (by decide)]
  case isFalse hc =>
    dsimp only
    split
    case isTrue htoo =>
      have hmany : (precision : Int) ≤ adjusted c e - target := by
        have hlimit : exponentLimit = 999999 := rfl
        have hprecision : precision = 28 := rfl
        rw [Int.ofNat_eq_natCast] at htoo
        omega
      rw [if_neg (Nat.not_lt.mpr (precision_le_kept hc hmany))]
    case isFalse => rw [shifted_eq_kept]

end Decimal
end Quill
