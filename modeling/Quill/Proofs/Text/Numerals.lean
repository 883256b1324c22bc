import Mathlib.Data.List.Induction
import Mathlib.Tactic.Ring
import Quill.Text.Numeral

/-!
Numerals written and read.

The digits that a number is written with are plain ones, and reading them gives the number back.  A
numeral of any script stands for a number below the power of ten of its length, so a number that has
been read within a limit is written within it.
-/

namespace Quill
namespace Text

/-! ## Plain digits -/

/-- The value of a plain digit is its distance from zero. -/
theorem digitValue?_of_isDigit {c : Char} (h : c.isDigit = true) :
    digitValue? c = some (c.toNat - '0'.toNat) := by
  obtain ⟨hlow, hhigh⟩ : 48 ≤ c.toNat ∧ c.toNat ≤ 57 := by
    simpa [Char.isDigit, UInt32.le_iff_toNat_le] using h
  rw [digitValue?, digitZeros, digitIn, if_neg (by omega), if_pos (by omega)]
  rfl

theorem isDigit_of_plain {c : Char} (h : c.isDigit = true) : isDigit c = true := by
  rw [isDigit, digitValue?_of_isDigit h]
  rfl

theorem isDigit_of_mem_toDigits {n : Nat} {c : Char} (h : c ∈ Nat.toDigits 10 n) :
    c.isDigit = true :=
  Nat.isDigit_of_mem_toDigits (by decide) (by decide) h

/-! ## Numerals as numbers -/

theorem natOfDigits_append (front back : List Char) :
    natOfDigits (front ++ back) =
      back.foldl (fun n c => 10 * n + (digitValue? c).getD 0) (natOfDigits front) :=
  List.foldl_append

theorem natOfDigits_concat (front : List Char) (c : Char) :
    natOfDigits (front ++ [c]) = 10 * natOfDigits front + (digitValue? c).getD 0 :=
  natOfDigits_append front [c]

theorem natOfDigits_replicate_append (n : Nat) (digits : List Char) :
    natOfDigits (List.replicate n '0' ++ digits) = natOfDigits digits := by
  have hzeros : natOfDigits (List.replicate n '0') = 0 := by
    induction n with
    | zero => rfl
    | succ n ih =>
      rw [List.replicate_succ', natOfDigits_concat, ih]
      rfl
  rw [natOfDigits_append, hzeros]
  rfl

/-- Plain digits are read as the library reads them. -/
theorem natOfDigits_of_plain {digits : List Char} (h : ∀ c ∈ digits, c.isDigit = true) :
    natOfDigits digits = Nat.ofDigitChars 10 digits 0 := by
  induction digits using List.reverseRecOn with
  | nil => rfl
  | append_singleton front c ih =>
    have hc := h c (by simp)
    rw [natOfDigits_concat, ih fun d hd => h d (by simp [hd]), digitValue?_of_isDigit hc,
      Nat.ofDigitChars_append, Nat.ofDigitChars_cons, Nat.ofDigitChars_nil, Option.getD_some]

/-- A number that is written is read back. -/
theorem natOfDigits_toDigits (n : Nat) : natOfDigits (Nat.toDigits 10 n) = n := by
  rw [natOfDigits_of_plain fun _ => isDigit_of_mem_toDigits, Nat.ofDigitChars_ten_toDigits]

/-- The number of two numerals in a row. -/
theorem natOfDigits_append_eq (front back : List Char) :
    natOfDigits (front ++ back) =
      natOfDigits front * Nat.pow 10 back.length + natOfDigits back := by
  induction back using List.reverseRecOn with
  | nil =>
    rw [List.append_nil]
    exact (Nat.mul_one _).symm
  | append_singleton back c ih =>
    have hpow : Nat.pow 10 (back.length + 1) = Nat.pow 10 back.length * 10 := rfl
    rw [← List.append_assoc, natOfDigits_concat, natOfDigits_concat, ih, List.length_append,
      List.length_singleton, hpow]
    ring

theorem natOfDigits_lt (digits : List Char) :
    natOfDigits digits < Nat.pow 10 digits.length := by
  induction digits using List.reverseRecOn with
  | nil => decide
  | append_singleton front c ih =>
    have hvalue : (digitValue? c).getD 0 < 10 := by
      cases h : digitValue? c with
      | none => decide
      | some d => exact digitValue?_lt h
    have hpow : Nat.pow 10 (front.length + 1) = Nat.pow 10 front.length * 10 := rfl
    rw [natOfDigits_concat, List.length_append, List.length_singleton, hpow]
    omega

theorem natOfDigits_lt_of_length_le {digits : List Char} {limit : Nat}
    (h : digits.length ≤ limit) : natOfDigits digits < Nat.pow 10 limit :=
  Nat.lt_of_lt_of_le (natOfDigits_lt digits) (Nat.pow_le_pow_right (by decide) h)

theorem length_toDigits_le_iff {n limit : Nat} (hlimit : 0 < limit) :
    (Nat.toDigits 10 n).length ≤ limit ↔ n < Nat.pow 10 limit :=
  Nat.length_toDigits_le_iff (by decide) hlimit

/-- A numeral of two digits. -/
theorem paddedNat_two {n : Nat} (h : n < 100) : (paddedNat 2 n).length = 2 ∧
    (∀ d ∈ paddedNat 2 n, d.isDigit = true) ∧ natOfDigits (paddedNat 2 n) = n := by
  have hlength : (Nat.toDigits 10 n).length ≤ 2 := (length_toDigits_le_iff (by decide)).mpr h
  refine ⟨?_, fun d hd => ?_, ?_⟩
  · rw [paddedNat, List.length_append, List.length_replicate]
    omega
  · rcases List.mem_append.mp hd with hd | hd
    · rw [List.eq_of_mem_replicate hd]
      rfl
    · exact isDigit_of_mem_toDigits hd
  · rw [paddedNat, natOfDigits_replicate_append, natOfDigits_toDigits]

/-- A number is at least the power of ten of all its digits but the first. -/
theorem pow_le_of_digitCount {n k : Nat} (hn : n ≠ 0) (h : digitCount n = k + 1) :
    Nat.pow 10 k ≤ n := by
  rcases Nat.eq_zero_or_pos k with rfl | hk
  · exact Nat.one_le_iff_ne_zero.mpr hn
  · refine Nat.le_of_not_lt fun hlt => ?_
    have hlength : digitCount n ≤ k := (length_toDigits_le_iff hk).mpr hlt
    omega

theorem lt_pow_digitCount (n : Nat) : n < Nat.pow 10 (digitCount n) :=
  (length_toDigits_le_iff (List.length_pos_iff.mpr Nat.toDigits_ne_nil)).mp Nat.le.refl

/-- A number other than zero is not written with a zero first. -/
theorem eq_nil_of_toDigits {n : Nat} {rest : List Char} (h : Nat.toDigits 10 n = '0' :: rest) :
    rest = [] := by
  have hvalue : natOfDigits rest = n := by
    rw [← natOfDigits_toDigits n, h]
    exact (natOfDigits_replicate_append 1 rest).symm
  have hlt := natOfDigits_lt rest
  rw [hvalue] at hlt
  rcases Nat.eq_zero_or_pos n with rfl | hpos
  · exact (List.cons.inj h).2.symm
  · have hcount : digitCount n = rest.length + 1 := by rw [digitCount, h, List.length_cons]
    have hle := pow_le_of_digitCount (Nat.pos_iff_ne_zero.mp hpos) hcount
    omega

end Text
end Quill
