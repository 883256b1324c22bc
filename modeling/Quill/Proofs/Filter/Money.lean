import Quill.Filter.Money
import Quill.Proofs.Number.Rounding
import Quill.Proofs.Number.Written
import Quill.Value

/-!
Amounts of money.

An amount is rounded to cents as the rational number that it is, a half away from zero, and written
in dollars with the cents behind a point.  The digits of the whole dollars stand in groups of three.
Without the signs for dollars and thousands it reads as the number of cents that it was written for.
-/

namespace Quill

open Text

/-! ## Groups of digits -/

/-- Groups of three, of which the first may be shorter. -/
structure Groups (first : List Char) (others : List (List Char)) : Prop where
  ne_nil : first ≠ []
  short : first.length ≤ 3
  full : ∀ group ∈ others, group.length = 3

theorem Groups.length_mod {first : List Char} {others : List (List Char)}
    (h : Groups first others) :
    (first ++ others.flatten).length % 3 = first.length % 3 := by
  have hothers : others.flatten.length % 3 = 0 := by
    have hfull := h.full
    clear h
    induction others with
    | nil => rfl
    | cons group rest ih =>
      obtain ⟨hgroup, hrest⟩ := List.forall_mem_cons.mp hfull
      rw [List.flatten_cons, List.length_append, hgroup, Nat.add_mod_left, ih hrest]
  rw [List.length_append]
  omega

namespace Filter

/-- Digits are grouped from the right. -/
theorem exists_groups {digits : List Char} (hne : digits ≠ []) : ∃ first others,
    groupThousands digits = first ++ others.flatMap (',' :: ·) ∧
      digits = first ++ others.flatten ∧ Groups first others := by
  induction digits with
  | nil => exact absurd rfl hne
  | cons d rest ih =>
    rw [groupThousands]
    by_cases hrest : rest = []
    · subst hrest
      exact ⟨[d], [], rfl, rfl, by simp, by simp, by simp⟩
    · obtain ⟨first, others, hgrouped, hdigits, hgroups⟩ := ih hrest
      have hmod := hgroups.length_mod
      have hpos := List.length_pos_iff.mpr hgroups.ne_nil
      have hshort := hgroups.short
      rw [← hdigits] at hmod
      split
      · next hfull =>
        refine ⟨[d], first :: others, by rw [hgrouped]; simp, by simp [hdigits], by simp,
          by simp, List.forall_mem_cons.mpr ⟨?_, hgroups.full⟩⟩
        omega
      · next hpart =>
        refine ⟨d :: first, others, by rw [hgrouped]; rfl, by rw [hdigits]; rfl, by simp, ?_,
          hgroups.full⟩
        rw [List.length_cons]
        have hnot : first.length ≠ 3 := by
          intro hthree
          exact hpart ⟨by omega, hrest⟩
        omega

def isNumeric (x : Char) : Bool := x != '$' && x != ','

theorem isNumeric_of_isDigit {d : Char} (h : d.isDigit = true) : isNumeric d = true := by
  have hdollar : d ≠ '$' := Decimal.ne_of_isDigit h rfl
  have hcomma : d ≠ ',' := Decimal.ne_of_isDigit h rfl
  simp [isNumeric, hdollar, hcomma]

theorem filter_digits {digits : List Char} (h : ∀ d ∈ digits, d.isDigit = true) :
    digits.filter isNumeric = digits :=
  List.filter_eq_self.mpr fun d hd => isNumeric_of_isDigit (h d hd)

/-- Without the commas the digits are left. -/
theorem filter_groups {others : List (List Char)} (h : ∀ d ∈ others.flatten, d.isDigit = true) :
    (others.flatMap (',' :: ·)).filter isNumeric = others.flatten := by
  induction others with
  | nil => rfl
  | cons group rest ih =>
    obtain ⟨hgroup, hrest⟩ := List.forall_mem_append.mp h
    have hcomma : isNumeric ',' = false := rfl
    rw [List.flatMap_cons, List.filter_append, List.filter_cons, hcomma, filter_digits hgroup,
      ih hrest, List.flatten_cons]
    rfl

/-! ## Dollars and cents -/

end Filter

/-- Whether a text is a number of cents in dollars: a minus sign for a debt, the dollars in groups
of three without zeros in front, and two digits for the cents.  It reads as the number of cents when
the signs for dollars and thousands are taken out. -/
structure IsAmount (text : String) (cents : ℤ) : Prop where
  written : ∃ first others last,
    text.toList = (if cents < 0 then ['-'] else []) ++
      '$' :: (first ++ others.flatMap (',' :: ·) ++ '.' :: last) ∧
    Groups first others ∧ first ++ others.flatten = Nat.toDigits 10 (cents.natAbs / 100) ∧
    (first.head? = some '0' → first = ['0'] ∧ others = []) ∧
    last.length = 2 ∧ ∀ d ∈ last, d.isDigit = true
  read : Decimal.ofText? (String.ofList (text.toList.filter Filter.isNumeric)) =
    some (.finite (decide (cents < 0)) cents.natAbs (-2))

/-- No debt is nothing. -/
theorem IsAmount.ne_negative_zero {text : String} {cents : ℤ} (h : IsAmount text cents) :
    text ≠ "-$0.00" := by
  rintro rfl
  have hzero : some (Decimal.finite true 0 (-2)) =
      some (.finite (decide (cents < 0)) cents.natAbs (-2)) := h.read
  obtain ⟨hnegative, habs, -⟩ := Decimal.finite.inj (Option.some.inj hzero)
  have hlt : cents < 0 := of_decide_eq_true hnegative.symm
  omega

namespace Filter

theorem toList_dollars (negative : Bool) {cents : Nat} {grouped : List Char}
    (h : groupThousands (Nat.toDigits 10 (cents / 100)) = grouped) :
    (dollars negative cents).toList = (if negative then ['-'] else []) ++
      '$' :: (grouped ++ '.' :: paddedNat 2 (cents % 100)) := by
  rw [dollars, h]
  cases negative <;> simp

/-- Without the signs for dollars and thousands a number with two decimals is left. -/
theorem filter_dollars (negative : Bool) (cents : Nat) :
    (dollars negative cents).toList.filter isNumeric = Decimal.signText negative
      (Nat.toDigits 10 (cents / 100) ++ '.' :: paddedNat 2 (cents % 100)) := by
  have hwhole : ∀ d ∈ Nat.toDigits 10 (cents / 100), d.isDigit = true :=
    fun _ => isDigit_of_mem_toDigits
  have hne : Nat.toDigits 10 (cents / 100) ≠ [] := Nat.toDigits_ne_nil
  obtain ⟨first, others, hgrouped, hdigits, -⟩ := exists_groups hne
  obtain ⟨-, hlast, -⟩ := paddedNat_two (Nat.mod_lt cents (by decide : 100 > 0))
  rw [hdigits] at hwhole
  obtain ⟨hfirst, hothers⟩ := List.forall_mem_append.mp hwhole
  have hdollar : isNumeric '$' = false := rfl
  have hpoint : isNumeric '.' = true := rfl
  rw [toList_dollars negative hgrouped, hdigits]
  simp only [List.filter_append, List.filter_cons, hdollar, hpoint, filter_digits hfirst,
    filter_groups hothers, filter_digits hlast]
  cases negative with
  | false => rfl
  | true => rfl

/-- That number is the number of cents. -/
theorem read_dollars (negative : Bool) {cents : Nat} (h : cents < Nat.pow 10 Decimal.precision) :
    Decimal.ofText? (String.ofList ((dollars negative cents).toList.filter isNumeric)) =
      some (.finite negative cents (-2)) := by
  obtain ⟨hlength, hlast, hvalue⟩ := paddedNat_two (Nat.mod_lt cents (by decide : 100 > 0))
  have hwrites := Decimal.Writes.point Nat.toDigits_ne_nil
    (fun _ => isDigit_of_mem_toDigits (n := cents / 100)) hlast .bare
  have hcoefficient : natOfDigits (Nat.toDigits 10 (cents / 100) ++ paddedNat 2 (cents % 100)) =
      cents := by
    have hhundred : Nat.pow 10 2 = 100 := rfl
    rw [natOfDigits_append_eq, natOfDigits_toDigits, hvalue, hlength, hhundred]
    omega
  have hrange : (Decimal.finite negative cents (-2)).InRange := by
    have hdigits : digitCount cents ≤ Decimal.precision :=
      (length_toDigits_le_iff (by decide)).mpr h
    have hprecision : Decimal.precision = 28 := rfl
    have hlimit : Decimal.writtenLimit = 999999999999999999 := rfl
    refine ⟨?_, by omega⟩
    rw [Decimal.adjusted, Int.ofNat_eq_natCast]
    omega
  rw [hcoefficient, hlength, List.append_nil] at hwrites
  rw [Decimal.ofText?, String.toList_ofList, filter_dollars, hwrites.read?]
  exact Decimal.ofWritten?_of_inRange hrange

/-- A number of cents that is not too large is written in dollars. -/
theorem isAmount_dollars {cents : ℤ} (h : cents.natAbs < Nat.pow 10 Decimal.precision) :
    IsAmount (dollars (decide (cents < 0)) cents.natAbs) cents := by
  refine ⟨?_, read_dollars _ h⟩
  have hne : Nat.toDigits 10 (cents.natAbs / 100) ≠ [] := Nat.toDigits_ne_nil
  obtain ⟨first, others, hgrouped, hdigits, hgroups⟩ := exists_groups hne
  obtain ⟨hlength, hlast, -⟩ := paddedNat_two (Nat.mod_lt cents.natAbs (by decide : 100 > 0))
  refine ⟨first, others, _, ?_, hgroups, hdigits.symm, fun hhead => ?_, hlength, hlast⟩
  · rw [toList_dollars _ hgrouped]
    simp only [decide_eq_true_eq]
  · obtain ⟨rest, rfl⟩ := List.head?_eq_some_iff.mp hhead
    obtain ⟨rfl, hnone⟩ := List.append_eq_nil_iff.mp (eq_nil_of_toDigits hdigits)
    refine ⟨rfl, List.eq_nil_iff_forall_not_mem.mpr fun group hgroup => ?_⟩
    have hempty : group = [] := List.flatten_eq_nil_iff.mp hnone group hgroup
    have hthree := hgroups.full group hgroup
    rw [hempty] at hthree
    cases hthree

/-! ## Values -/

/-- The values that are amounts, or texts that may be, with the decimal that each stands for.  Every
decimal is what some text spells. -/
inductive Amount : Value → Option Decimal → Prop
  | int {n : Int} : n.natAbs < Nat.pow 10 numeralLimit → Amount (.ofInt n) (some (.ofInt n))
  | decimal {d : Decimal} {text : String} : Decimal.ofText? text = some d →
      Amount (.number (.decimal d)) (some d)
  | text (t : Marked) : Amount (.text t) (Decimal.ofText? (trimmed t.text))

def decimalUsd? (d : Decimal) : Option String :=
  (toCents? d).map fun (negative, cents) => dollars negative cents

theorem usd?_eq (s : String) : usd? s = (Decimal.ofText? (trimmed s)).bind decimalUsd? := rfl

theorem usd?_toText {d : Decimal} (h : d.InRange) : usd? d.toText = decimalUsd? d := by
  rw [usd?_eq, Decimal.trimmed_toText, Decimal.ofText?_toText h, Option.bind_some]

theorem callProblem?_formatUsd : formatUsd.callProblem? 0 = none := rfl

inductive HasText : Value → String → Prop
  | number {n : Number} {s : String} : n.text? = some s → HasText (.number n) s
  | text (t : Marked) : HasText (.text t) t.text

theorem HasText.apply_formatUsd {v : Value} {s : String} (h : HasText v s) :
    formatUsd.apply v [] = .ok (match usd? s with
      | some written => .ofString written
      | none => v) := by
  rw [Filter.apply, List.length_nil, callProblem?_formatUsd]
  cases hwritten : usd? s <;> cases h with
  | number hs => simp only [formatUsd, unary, hs, hwritten]
  | text t => simp only [formatUsd, unary, hwritten]

/-- The filter never fails, and what it gives is the decimal in dollars, if there is such a text. -/
theorem apply_formatUsd {v : Value} {d : Option Decimal} (h : Amount v d) :
    formatUsd.apply v [] = .ok (match d.bind decimalUsd? with
      | some written => .ofString written
      | none => v) := by
  cases h with
  | @int n hn =>
    have husd := usd?_toText (Decimal.inRange_ofInt hn)
    rw [Decimal.toText_ofInt] at husd
    have htext : (Number.int n).text? = some (intText n) := by
      rw [Number.text?, intText?]
      exact if_pos hn
    rw [Value.ofInt, (HasText.number htext).apply_formatUsd, husd, Option.bind_some]
  | decimal hd =>
    rw [(HasText.number rfl).apply_formatUsd, usd?_toText (Decimal.inRange_iff.mpr ⟨_, hd⟩),
      Option.bind_some]
  | text t => rw [(HasText.text t).apply_formatUsd, usd?_eq]

/-! ## Rounding to cents -/

theorem roundAway_cents (s : Bool) (c : Nat) (e : Int) :
    roundAway (signed s (c * 10 ^ e) * 100) =
      if s then -(Decimal.kept (c * 10 ^ (e - -2)) : ℤ) else Decimal.kept (c * 10 ^ (e - -2)) := by
  have hshift : signed s ((c : ℚ) * 10 ^ e) * 100 = signed s (c * 10 ^ (e - -2)) := by
    have hpow : (10 : ℚ) ^ (e - -2) = 10 ^ e * 100 := by
      rw [sub_neg_eq_add, zpow_add₀ (by norm_num)]
      norm_num
    rw [hpow]
    cases s with
    | false => exact mul_assoc _ _ _
    | true =>
      show -((c : ℚ) * 10 ^ e) * 100 = -(c * (10 ^ e * 100))
      ring
  rw [hshift, Decimal.roundAway_signed (by positivity)]

/-- A finite decimal is rounded to cents as the rational number is, if these are not too many. -/
theorem toCents?_finite {s : Bool} {c : Nat} {e : Int} {cents : ℤ}
    (h : roundAway (signed s (c * 10 ^ e) * 100) = cents) :
    toCents? (.finite s c e) =
      if cents.natAbs < Nat.pow 10 Decimal.precision then
        some (decide (cents < 0), cents.natAbs)
      else none := by
  rw [roundAway_cents] at h
  rw [toCents?, Decimal.quantize?_awayFromZero (by decide)]
  generalize Decimal.kept (c * 10 ^ (e - -2)) = kept at *
  have habs : cents.natAbs = kept := by
    cases s with
    | false =>
      obtain rfl : (kept : ℤ) = cents := h
      rfl
    | true =>
      obtain rfl : -(kept : ℤ) = cents := h
      rw [Int.natAbs_neg, Int.natAbs_natCast]
  have hsign : (s && kept != 0) = decide (cents < 0) := by
    cases s with
    | false =>
      obtain rfl : (kept : ℤ) = cents := h
      simp
    | true =>
      obtain rfl : -(kept : ℤ) = cents := h
      rw [Bool.true_and, Bool.eq_iff_iff, bne_iff_ne, decide_eq_true_eq]
      omega
  rw [habs]
  by_cases hfits : kept < Nat.pow 10 Decimal.precision
  · rw [if_pos hfits, if_pos hfits]
    dsimp only
    rw [hsign]
  · rw [if_neg hfits, if_neg hfits]

/-- A decimal is written in dollars when it is finite and there are not too many cents. -/
theorem decimalUsd?_of_rational {d : Decimal} {q : ℚ}
    (h : (Number.decimal d).worth? = some (.rational q)) :
    decimalUsd? d =
      if (roundAway (q * 100)).natAbs < Nat.pow 10 Decimal.precision then
        some (dollars (decide (roundAway (q * 100) < 0)) (roundAway (q * 100)).natAbs)
      else none := by
  cases d with
  | infinity s => cases h
  | nan s signaling payload => cases h
  | finite s c e =>
    obtain rfl : signed s (c * 10 ^ e) = q := Worth.rational.inj (Option.some.inj h)
    rw [decimalUsd?, toCents?_finite rfl]
    split
    · rfl
    · rfl

theorem decimalUsd?_of_not_rational {d : Decimal}
    (h : ∀ q, (Number.decimal d).worth? ≠ some (.rational q)) : decimalUsd? d = none := by
  cases d with
  | infinity s => rfl
  | nan s signaling payload => rfl
  | finite s c e => exact absurd rfl (h _)

/-- The amount that a whole number, a decimal or a text stands for is rounded to cents exactly, a
half away from zero.  If it takes no more than 28 digits it is written in dollars, and nothing that
is rounded away leaves a minus sign.  What stands for no finite amount, or for one that is too
large, is given back as it is. -/
theorem formatUsd_exact {v : Value} {d : Option Decimal} (h : Amount v d) :
    (∀ q, (d.bind fun d => (Number.decimal d).worth?) = some (.rational q) →
      (roundAway (q * 100)).natAbs < Nat.pow 10 28 →
      ∃ text, formatUsd.apply v [] = .ok (.ofString text) ∧ IsAmount text (roundAway (q * 100)) ∧
        text ≠ "-$0.00") ∧
    ((∀ q, (d.bind fun d => (Number.decimal d).worth?) = some (.rational q) →
      Nat.pow 10 28 ≤ (roundAway (q * 100)).natAbs) → formatUsd.apply v [] = .ok v) := by
  rw [apply_formatUsd h]
  constructor
  · intro q hq hfits
    obtain ⟨d, rfl, hworth⟩ := Option.bind_eq_some_iff.mp hq
    have hamount := isAmount_dollars hfits
    have hwritten : decimalUsd? d = some _ := (decimalUsd?_of_rational hworth).trans (if_pos hfits)
    rw [Option.bind_some, hwritten]
    exact ⟨_, rfl, hamount, hamount.ne_negative_zero⟩
  · intro hlarge
    have hnone : d.bind decimalUsd? = none := by
      cases d with
      | none => rfl
      | some d =>
        rw [Option.bind_some]
        by_cases hrational : ∃ q, (Number.decimal d).worth? = some (.rational q)
        · obtain ⟨q, hq⟩ := hrational
          rw [decimalUsd?_of_rational hq]
          exact if_neg (Nat.not_lt.mpr (hlarge q hq))
        · exact decimalUsd?_of_not_rational fun q hq => hrational ⟨q, hq⟩
    rw [hnone]

/-- A debt of half a cent less than a thousand dollars is carried to the next group; as many nines
as the precision allows are carried to one digit too many. -/
theorem formatUsd_exact_carry :
    (∃ text, formatUsd.apply (.number (.decimal (.finite true 999995 (-3)))) [] =
        .ok (.ofString text) ∧ IsAmount text (-100000) ∧ text ≠ "-$0.00") ∧
    formatUsd.apply (.number (.decimal (.finite false 99999999999999999999999999995 (-3)))) [] =
      .ok (.number (.decimal (.finite false 99999999999999999999999999995 (-3)))) := by
  have hdebt : roundAway (signed true ((999995 : Nat) * 10 ^ (-3 : Int)) * 100) = -100000 := by
    norm_num [roundAway, signed]
  have hnines : roundAway (signed false
      ((99999999999999999999999999995 : Nat) * 10 ^ (-3 : Int)) * 100) =
        10000000000000000000000000000 := by
    norm_num [roundAway, signed]
  have hread : Decimal.ofText? "-999.995" = some (.finite true 999995 (-3)) := rfl
  have hread' : Decimal.ofText? "99999999999999999999999999.995" =
      some (.finite false 99999999999999999999999999995 (-3)) := rfl
  constructor
  · obtain ⟨hwritten, -⟩ := formatUsd_exact (.decimal hread)
    have htext := hwritten _ rfl (by rw [hdebt]; decide)
    rwa [hdebt] at htext
  · obtain ⟨-, hkept⟩ := formatUsd_exact (.decimal hread')
    refine hkept fun q hq => ?_
    obtain rfl := Worth.rational.inj (Option.some.inj hq)
    rw [hnines]
    decide

end Filter
end Quill
