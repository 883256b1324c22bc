import Quill.Text.Html

/-!
Escaped text holds no markup: none of the delimiters, and an ampersand only where a reference
begins.
-/

namespace Quill
namespace Html

def references : List (List Char) :=
  [['&', 'a', 'm', 'p', ';'], ['&', 'l', 't', ';'], ['&', 'g', 't', ';'],
    ['&', 'q', 'u', 'o', 't', ';'], ['&', '#', 'x', '2', '7', ';']]

/-- Whether every ampersand of a text begins a reference. -/
def Referring (cs : List Char) : Prop :=
  ∀ front back, cs = front ++ '&' :: back → ∃ r ∈ references, r <+: '&' :: back

def Inert (cs : List Char) : Prop :=
  (∀ c ∈ cs, c ≠ '<' ∧ c ≠ '>' ∧ c ≠ '"' ∧ c ≠ '\'') ∧ Referring cs

/-- A character is written as itself, if it is no ampersand and no delimiter, or as a reference. -/
theorem escapeChar_cases (c : Char) :
    (escapeChar c = [c] ∧ c ≠ '&' ∧ c ≠ '<' ∧ c ≠ '>' ∧ c ≠ '"' ∧ c ≠ '\'') ∨
      escapeChar c ∈ references ∧ ∃ rest, escapeChar c = '&' :: rest ∧ '&' ∉ rest := by
  unfold escapeChar
  by_cases hamp : c = '&'
  · rw [if_pos hamp]
    exact .inr ⟨by decide, _, rfl, by decide⟩
  rw [if_neg hamp]
  by_cases hlt : c = '<'
  · rw [if_pos hlt]
    exact .inr ⟨by decide, _, rfl, by decide⟩
  rw [if_neg hlt]
  by_cases hgt : c = '>'
  · rw [if_pos hgt]
    exact .inr ⟨by decide, _, rfl, by decide⟩
  rw [if_neg hgt]
  by_cases hquote : c = '"'
  · rw [if_pos hquote]
    exact .inr ⟨by decide, _, rfl, by decide⟩
  rw [if_neg hquote]
  by_cases happ : c = '\''
  · rw [if_pos happ]
    exact .inr ⟨by decide, _, rfl, by decide⟩
  rw [if_neg happ]
  exact .inl ⟨rfl, hamp, hlt, hgt, hquote, happ⟩

theorem mem_escapeChar {c d : Char} (h : d ∈ escapeChar c) :
    d ≠ '<' ∧ d ≠ '>' ∧ d ≠ '"' ∧ d ≠ '\'' := by
  rcases escapeChar_cases c with ⟨hself, -, hplain⟩ | ⟨hreference, -⟩
  · rw [hself, List.mem_singleton] at h
    rwa [h]
  · have hall : references.all (fun r => r.all fun e => !(['<', '>', '"', '\''].contains e)) =
        true := by decide
    have hd := List.all_eq_true.mp (List.all_eq_true.mp hall _ hreference) d h
    simpa using hd

/-- In a text that goes on with `rest`, an ampersand stands at its head or in the text behind
what has none. -/
theorem ampersand_split {word rest front back : List Char} (hword : '&' ∉ word)
    (h : word ++ rest = front ++ '&' :: back) : ∃ front', rest = front' ++ '&' :: back := by
  rcases List.append_eq_append_iff.mp h with ⟨middle, rfl, hrest⟩ | ⟨middle, rfl, hback⟩
  · exact ⟨middle, hrest⟩
  · cases middle with
    | nil => exact ⟨[], hback.symm⟩
    | cons c more =>
      injection hback with hc
      subst hc
      exact absurd (List.mem_append_right front (List.mem_cons_self ..)) hword

theorem referring_escapeChars (cs : List Char) : Referring (escapeChars cs) := by
  induction cs with
  | nil =>
    intro front back h
    cases front <;> cases h
  | cons c rest ih =>
    intro front back h
    rw [show escapeChars (c :: rest) = escapeChar c ++ escapeChars rest from rfl] at h
    rcases escapeChar_cases c with ⟨hself, hc, -⟩ | ⟨hreference, more, hmore, hnone⟩
    · rw [hself] at h
      obtain ⟨front', hrest⟩ := ampersand_split (by simpa using Ne.symm hc) h
      exact ih front' back hrest
    -- A reference has its ampersand at the head, where it begins itself.
    · cases front with
      | nil => exact ⟨escapeChar c, hreference, escapeChars rest, h⟩
      | cons d front =>
        rw [hmore] at h
        injection h with _ h
        obtain ⟨front', hrest⟩ := ampersand_split hnone h
        exact ih front' back hrest

/-- Escaped text holds no markup. -/
theorem inert_escape (s : String) : Inert (escape s).toList := by
  rw [escape, String.toList_ofList]
  refine ⟨?_, referring_escapeChars s.toList⟩
  intro c hc
  obtain ⟨d, -, hd⟩ := List.mem_flatMap.mp hc
  exact mem_escapeChar hd

end Html
end Quill
