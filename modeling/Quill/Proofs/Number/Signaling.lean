import Quill.Number

/-!
Signaling decimals come from data alone: no operation of arithmetic has one as its result.
-/

namespace Quill
namespace Decimal

def Quiet (r : Option Decimal) : Prop := ∀ d, r = some d → d.isSignaling = false

theorem quiet_none : Quiet none := by
  intro d h
  cases h

theorem quiet_some {d : Decimal} (h : d.isSignaling = false) : Quiet (some d) := by
  intro e he
  cases he
  exact h

theorem Quiet.ite {c : Prop} [Decidable c] {r r' : Option Decimal} (h : Quiet r) (h' : Quiet r') :
    Quiet (if c then r else r') := by
  split
  · exact h
  · exact h'

theorem quiet_fix (negative : Bool) (coefficient : Nat) (exponent : Int) :
    Quiet (fix? negative coefficient exponent) := by
  rw [fix?]
  refine .ite (quiet_some rfl) (.ite quiet_none (.ite ?_ (quiet_some rfl)))
  -- What is rounded may have become too large.
  exact .ite quiet_none (quiet_some rfl)

theorem quiet_nanOf (a b : Decimal) : Quiet (nanOf? a b) := by
  have hfixed : ∀ s payload, Quiet (some (fixNaN s payload)) := fun _ _ => quiet_some rfl
  unfold nanOf?
  refine .ite quiet_none ?_
  cases a with
  | nan s signaling payload => exact hfixed s payload
  | finite | infinity =>
    cases b with
    | nan s signaling payload => exact hfixed s payload
    | finite | infinity => exact quiet_none

theorem quiet_addAligned (sa : Bool) (ca : Nat) (ea : Int) (sb : Bool) (cb : Nat) (eb : Int) :
    Quiet (addAligned? sa ca ea sb cb eb) := by
  rw [addAligned?]
  exact .ite (quiet_fix _ _ _) (quiet_fix _ _ _)

theorem quiet_add (a b : Decimal) : Quiet (add? a b) := by
  cases a with
  | finite sa ca ea =>
    cases b with
    | finite sb cb eb =>
      have hzero : ∀ ez s c e, Quiet (addZero? ez s c e) := fun _ _ _ _ => quiet_fix _ _ _
      rw [add?]
      refine .ite (quiet_fix _ _ _) (.ite (hzero _ _ _ _) (.ite (hzero _ _ _ _) ?_))
      exact .ite (quiet_addAligned _ _ _ _ _ _) (quiet_addAligned _ _ _ _ _ _)
    | infinity sb => exact quiet_some rfl
    | nan => exact quiet_nanOf _ _
  | infinity sa =>
    cases b with
    | finite => exact quiet_some rfl
    | infinity sb => exact .ite (quiet_some rfl) quiet_none
    | nan => exact quiet_nanOf _ _
  | nan => exact quiet_nanOf _ b

theorem quiet_sub (a b : Decimal) : Quiet (sub? a b) := quiet_add a (neg b)

theorem quiet_mul (a b : Decimal) : Quiet (mul? a b) := by
  cases a with
  | finite sa ca ea =>
    cases b with
    | finite sb cb eb => exact quiet_fix _ _ _
    | infinity sb => exact .ite quiet_none (quiet_some rfl)
    | nan => exact quiet_nanOf _ _
  | infinity sa =>
    cases b with
    | finite sb cb eb => exact .ite quiet_none (quiet_some rfl)
    | infinity sb => exact quiet_some rfl
    | nan => exact quiet_nanOf _ _
  | nan => exact quiet_nanOf _ b

theorem quiet_divFinite (sa : Bool) (ca : Nat) (ea : Int) (sb : Bool) (cb : Nat) (eb : Int) :
    Quiet (divFinite? sa ca ea sb cb eb) := by
  rw [divFinite?]
  exact .ite (quiet_fix _ _ _) (.ite (quiet_fix _ _ _) (quiet_fix _ _ _))

theorem quiet_div (a b : Decimal) : Quiet (div? a b) := by
  cases a with
  | finite sa ca ea =>
    cases b with
    | finite sb cb eb => exact .ite quiet_none (quiet_divFinite _ _ _ _ _ _)
    | infinity sb => exact quiet_some rfl
    | nan => exact quiet_nanOf _ _
  | infinity sa =>
    cases b with
    | finite => exact quiet_some rfl
    | infinity => exact quiet_none
    | nan => exact quiet_nanOf _ _
  | nan => exact quiet_nanOf _ b

theorem quiet_modFinite (sa : Bool) (ca : Nat) (ea : Int) (cb : Nat) (eb : Int) :
    Quiet (modFinite? sa ca ea cb eb) := by
  rw [modFinite?]
  refine .ite (quiet_fix _ _ _) (.ite (quiet_fix _ _ _) (.ite ?_ quiet_none))
  exact .ite (quiet_fix _ _ _) quiet_none

theorem quiet_mod (a b : Decimal) : Quiet (mod? a b) := by
  cases a with
  | finite sa ca ea =>
    cases b with
    | finite => exact .ite quiet_none (quiet_modFinite _ _ _ _ _)
    | infinity => exact quiet_fix _ _ _
    | nan => exact quiet_nanOf _ _
  | infinity =>
    cases b with
    | finite => exact quiet_none
    | infinity => exact quiet_none
    | nan => exact quiet_nanOf _ _
  | nan => exact quiet_nanOf _ b

end Decimal

namespace Number

/-- An operation that has no signaling result on whole numbers nor on decimals. -/
structure Operation.Quiet (op : Operation) : Prop where
  onInts : ∀ a b n, op.onInts a b = some n → n.isSignaling = false
  onDecimals : ∀ a b, Decimal.Quiet (op.onDecimals a b)

theorem Operation.Quiet.calculate {op : Operation} (h : op.Quiet) {a b n : Number}
    (hn : calculate? op a b = some n) : n.isSignaling = false := by
  have floats : ∀ {x y}, (op.onFloats x y).map Number.float = some n → n.isSignaling = false := by
    intro x y hxy
    obtain ⟨z, -, rfl⟩ := Option.map_eq_some_iff.mp hxy
    rfl
  have decimals : ∀ {d e}, (op.onDecimals d e).map Number.decimal = some n →
      n.isSignaling = false := by
    intro d e hde
    obtain ⟨result, hresult, rfl⟩ := Option.map_eq_some_iff.mp hde
    exact h.onDecimals d e result hresult
  cases a with
  | int a =>
    cases b with
    | int b => exact h.onInts a b n hn
    | float y =>
      obtain ⟨x, -, hn⟩ := Option.bind_eq_some_iff.mp hn
      exact floats hn
    | decimal e => exact decimals hn
  | float x =>
    cases b with
    | int b =>
      obtain ⟨y, -, hn⟩ := Option.bind_eq_some_iff.mp hn
      exact floats hn
    | float y => exact floats hn
    | decimal e => cases hn
  | decimal d =>
    cases b with
    | int b => exact decimals hn
    | float y => cases hn
    | decimal e => exact decimals hn

theorem quiet_addition : addition.Quiet where
  onInts _ _ _ h := by
    cases h
    rfl
  onDecimals := Decimal.quiet_add

theorem quiet_subtraction : subtraction.Quiet where
  onInts _ _ _ h := by
    cases h
    rfl
  onDecimals := Decimal.quiet_sub

theorem quiet_multiplication : multiplication.Quiet where
  onInts _ _ _ h := by
    cases h
    rfl
  onDecimals := Decimal.quiet_mul

theorem quiet_division : division.Quiet where
  onInts a b n h := by
    by_cases hb : b = 0
    · rw [show division.onInts a b = none from if_pos hb] at h
      cases h
    · rw [show division.onInts a b = (Binary64.ofQuotient? a b).map .float from if_neg hb] at h
      obtain ⟨x, -, rfl⟩ := Option.map_eq_some_iff.mp h
      rfl
  onDecimals := Decimal.quiet_div

theorem quiet_remainder : remainder.Quiet where
  onInts a b n h := by
    by_cases hb : b = 0
    · rw [show remainder.onInts a b = none from if_pos hb] at h
      cases h
    · rw [show remainder.onInts a b = some (.int (Int.fmod a b)) from if_neg hb] at h
      cases h
      rfl
  onDecimals := Decimal.quiet_mod

end Number

end Quill
