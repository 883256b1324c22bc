import Quill.Filter.Standard
import Quill.Proofs.Expr.Outcomes
import Quill.Proofs.Value.Operator

/-!
Values without text that is marked as safe.  No literal and no operator makes such text, and of
the standard filters only the one that is made for it does.
-/

namespace Quill

def Value.Unmarked (v : Value) : Prop := ∀ t, v = .text t → t.safe = false

namespace Value

variable {v : Value}

theorem unmarked_ofString (s : String) : (Value.ofString s).Unmarked := by
  intro t ht
  cases ht
  rfl

theorem everywhere_text {p : Value → Prop} {t : Marked} (h : p (.text t)) :
    (Value.text t).Everywhere p := by
  refine everywhere_of_single h rfl ?_
  intro entries hmap
  cases hmap

/-- The output of a value is safe only if the value is a text that is. -/
theorem Unmarked.output {t : Marked} (h : v.Unmarked) (ht : v.output = .ok t) :
    t.safe = false := by
  cases v with
  | text s =>
    cases ht
    exact h t rfl
  | number n =>
    rw [Value.output] at ht
    split at ht
    · rw [← Except.ok.inj ht]
      rfl
    · cases ht
  | list items =>
    obtain ⟨parts, -, ht⟩ := Outcome.bind_eq_ok.mp ht
    rw [← Except.ok.inj ht]
    rfl
  | tuple items =>
    obtain ⟨parts, -, ht⟩ := Outcome.bind_eq_ok.mp ht
    rw [← Except.ok.inj ht]
    rfl
  | map entries =>
    obtain ⟨parts, -, ht⟩ := Outcome.bind_eq_ok.mp ht
    rw [← Except.ok.inj ht]
    rfl
  | _ =>
    rw [← Except.ok.inj ht]
    rfl

end Value

/-- Neither literals nor operators mark text as safe. -/
theorem Expr.kept_unmarked : Kept Value.Unmarked where
  literal l := by
    intro t ht
    cases l <;> cases ht
    rfl
  operator op a b v ha _ h := by
    have hmakes := BinaryOperator.apply_makes h
    refine hmakes.everywhere ?_
    rintro _ rfl
    cases hmakes with
    | text hs _ =>
      show (_ && _) = false
      rw [ha.self.output hs, Bool.false_and]

namespace Filter

def Unmarking (f : Filter) : Prop :=
  ∀ v arguments result, v.Everywhere Value.Unmarked → f.body v arguments = .ok result →
    result.Everywhere Value.Unmarked

theorem unmarking_upper : upper.Unmarking := by
  intro v _ result _ h
  obtain ⟨t, -, h⟩ := Outcome.bind_eq_ok.mp h
  rw [← Except.ok.inj h]
  exact Value.everywhere_text (Value.unmarked_ofString _)

theorem unmarking_lower : lower.Unmarking := by
  intro v _ result _ h
  obtain ⟨t, -, h⟩ := Outcome.bind_eq_ok.mp h
  rw [← Except.ok.inj h]
  exact Value.everywhere_text (Value.unmarked_ofString _)

/-- The output of a value as a text is unmarked if the value is. -/
theorem everywhere_output {v : Value} {t : Marked} (h : v.Everywhere Value.Unmarked)
    (ht : v.output = .ok t) : (Value.text t).Everywhere Value.Unmarked := by
  refine Value.everywhere_text ?_
  intro u hu
  cases hu
  exact h.self.output ht

theorem unmarking_truncate : truncate.Unmarking := by
  intro v arguments result hv h
  have cut : ∀ {n : Int}, (v.output >>= fun t => .ok (.text (shorten n t))) = .ok result →
      result.Everywhere Value.Unmarked := by
    intro n h
    obtain ⟨t, ht, h⟩ := Outcome.bind_eq_ok.mp h
    rw [← Except.ok.inj h, shorten]
    split
    · exact Value.everywhere_text (Value.unmarked_ofString _)
    · exact everywhere_output hv ht
  cases v with
  | null =>
    rw [← Except.ok.inj h]
    exact Value.everywhere_text (Value.unmarked_ofString _)
  | _ => exact cut h

theorem unmarking_formatDate : formatDate.Unmarking := by
  intro v arguments result hv h
  unfold formatDate at h
  dsimp only at h
  split at h
  · cases h
  · rw [← Except.ok.inj h]
    exact Value.everywhere_text (Value.unmarked_ofString _)
  · split at h
    · obtain ⟨t, ht, h⟩ := Outcome.bind_eq_ok.mp h
      rw [← Except.ok.inj h]
      exact everywhere_output hv ht
    · obtain ⟨t, -, h⟩ := Outcome.bind_eq_ok.mp h
      rw [← Except.ok.inj h]
      exact Value.everywhere_text (Value.unmarked_ofString _)

/-- An amount that is not written in dollars stays as it is. -/
theorem formatUsd_cases {v result : Value} {arguments : List Value}
    (h : formatUsd.body v arguments = .ok result) : result = v ∨ ∃ s, result = .ofString s := by
  unfold formatUsd unary at h
  dsimp only at h
  split at h
  · split at h
    · rw [← Except.ok.inj h]
      split
      · exact .inr ⟨_, rfl⟩
      · exact .inl rfl
    · cases h
  · rw [← Except.ok.inj h]
    split
    · exact .inr ⟨_, rfl⟩
    · exact .inl rfl
  · rw [← Except.ok.inj h]
    exact .inl rfl

theorem unmarking_formatUsd : formatUsd.Unmarking := by
  intro v arguments result hv h
  rcases formatUsd_cases h with rfl | ⟨s, rfl⟩
  · exact hv
  · exact Value.everywhere_text (Value.unmarked_ofString s)

/-- A registry in which the filters not named `safe` do not mark text as safe. -/
def UnmarkingBut (safe : String) (filters : Registry) : Prop :=
  ∀ name f, filters.get? name = some f → name ≠ safe → f.Unmarking

theorem unmarkingBut_standard : UnmarkingBut "safe" standard := by
  intro name f h hname
  have hmem := Assoc.mem_of_get? h
  simp only [standard, List.mem_cons, Prod.mk.injEq, List.not_mem_nil, or_false] at hmem
  rcases hmem with ⟨-, rfl⟩ | ⟨-, rfl⟩ | ⟨-, rfl⟩ | ⟨rfl, -⟩ | ⟨-, rfl⟩ | ⟨-, rfl⟩
  · exact unmarking_upper
  · exact unmarking_lower
  · exact unmarking_truncate
  · exact absurd rfl hname
  · exact unmarking_formatDate
  · exact unmarking_formatUsd

theorem Unmarking.apply {f : Filter} (h : f.Unmarking) {v result : Value}
    {arguments : List Value} (hv : v.Everywhere Value.Unmarked)
    (hresult : f.apply v arguments = .ok result) : result.Everywhere Value.Unmarked := by
  rw [Filter.apply] at hresult
  split at hresult
  · cases hresult
  · exact h v arguments result hv hresult

end Filter
end Quill
