import Quill.Proofs.Outcome
import Quill.Value.Text

/-!
The output of values.  The one thing that stands in its way is a numeral that is too long.
-/

namespace Quill
namespace Value

theorem quoted_number_error {n : Number} {f : Fault} (h : n.quoted = .error f) :
    f = .numeralTooLong := by
  unfold Number.quoted at h
  split at h
  · cases h
  split at h
  · cases h
  · cases h
    rfl

mutual

/-- Only a numeral that is too long stands in the way of a quoted form. -/
theorem quoted_error {v : Value} {f : Fault} (h : v.quoted = .error f) : f = .numeralTooLong := by
  match v with
  | .number n => exact quoted_number_error h
  | .list items =>
    rcases Outcome.bind_eq_error.mp h with h | ⟨_, _, h⟩
    · exact quotedItems_error h
    · cases h
  | .tuple items =>
    rcases Outcome.bind_eq_error.mp h with h | ⟨parts, _, h⟩
    · exact quotedItems_error h
    · split at h <;> cases h
  | .map entries =>
    rcases Outcome.bind_eq_error.mp h with h | ⟨_, _, h⟩
    · exact quotedEntries_error h
    · cases h
  | .null | .bool _ | .text _ | .date _ | .dateTime _ => cases h

theorem quotedItems_error {items : List Value} {f : Fault} (h : quotedItems items = .error f) :
    f = .numeralTooLong := by
  match items with
  | [] => cases h
  | v :: rest =>
    rcases Outcome.bind_eq_error.mp h with h | ⟨_, _, h⟩
    · exact quoted_error h
    · rcases Outcome.bind_eq_error.mp h with h | ⟨_, _, h⟩
      · exact quotedItems_error h
      · cases h

theorem quotedEntries_error {entries : List (String × Value)} {f : Fault}
    (h : quotedEntries entries = .error f) : f = .numeralTooLong := by
  match entries with
  | [] => cases h
  | (key, v) :: rest =>
    rcases Outcome.bind_eq_error.mp h with h | ⟨_, _, h⟩
    · exact quoted_error h
    · rcases Outcome.bind_eq_error.mp h with h | ⟨_, _, h⟩
      · exact quotedEntries_error h
      · cases h

end

mutual

/-- Only a numeral that is too long stands in the way of output. -/
theorem output_error {v : Value} {f : Fault} (h : v.output = .error f) : f = .numeralTooLong := by
  match v with
  | .number n =>
    rw [output] at h
    split at h
    · cases h
    · cases h
      rfl
  | .list items | .tuple items =>
    rcases Outcome.bind_eq_error.mp h with h | ⟨_, _, h⟩
    · exact outputItems_error h
    · cases h
  | .map entries =>
    rcases Outcome.bind_eq_error.mp h with h | ⟨_, _, h⟩
    · exact quotedEntries_error h
    · cases h
  | .null | .bool _ | .text _ | .date _ | .dateTime _ => cases h

theorem outputItems_error {items : List Value} {f : Fault} (h : outputItems items = .error f) :
    f = .numeralTooLong := by
  match items with
  | [] => cases h
  | v :: rest =>
    rcases Outcome.bind_eq_error.mp h with h | ⟨_, _, h⟩
    · exact output_error h
    · rcases Outcome.bind_eq_error.mp h with h | ⟨_, _, h⟩
      · exact outputItems_error h
      · cases h

end

end Value
end Quill
