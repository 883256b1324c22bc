import Quill.Proofs.Text.Spans

/-!
The lines of a text, the stretches that they stand for, and the line that a place is on.

A line holds the break that ends it.  The last line has none, and it is empty if the text ends with
a break.
-/

namespace Quill
namespace Text

def lines : List Char → List (List Char)
  | [] => [[]]
  | c :: rest => if c = '\n' then [c] :: lines rest else (lines rest).modifyHead (c :: ·)

theorem exists_lines_eq_cons (cs : List Char) : ∃ first more, lines cs = first :: more := by
  induction cs with
  | nil => exact ⟨_, _, rfl⟩
  | cons c rest ih =>
    obtain ⟨first, more, hrest⟩ := ih
    rw [lines, hrest]
    split
    · exact ⟨_, _, rfl⟩
    · exact ⟨c :: first, more, rfl⟩

theorem lines_ne_nil (cs : List Char) : lines cs ≠ [] := by
  obtain ⟨first, more, h⟩ := exists_lines_eq_cons cs
  simp [h]

theorem flatten_lines (cs : List Char) : (lines cs).flatten = cs := by
  induction cs with
  | nil => rfl
  | cons c rest ih =>
    obtain ⟨first, more, hrest⟩ := exists_lines_eq_cons rest
    rw [hrest] at ih
    rw [lines, hrest]
    split
    · rw [List.flatten_cons, ih]
      rfl
    · rw [List.modifyHead_cons, List.flatten_cons, List.cons_append, ← List.flatten_cons, ih]

/-- What has no break in it goes to the line that follows it. -/
theorem lines_append {front : List Char} (h : '\n' ∉ front) (cs : List Char) :
    lines (front ++ cs) = (lines cs).modifyHead (front ++ ·) := by
  obtain ⟨first, more, hcs⟩ := exists_lines_eq_cons cs
  induction front with
  | nil => simp [hcs]
  | cons c rest ih =>
    rw [List.mem_cons, not_or] at h
    rw [List.cons_append, lines, if_neg (Ne.symm h.1), ih h.2, hcs]
    rfl

/-- The line that a place is on comes behind as many lines as there are breaks before the place. -/
theorem lines_at (front cs : List Char) : ∃ earlier before,
    earlier.length = front.count '\n' ∧ earlier.flatten ++ before = front ∧
      lines (front ++ cs) = earlier ++ (lines cs).modifyHead (before ++ ·) := by
  induction front with
  | nil =>
    obtain ⟨first, more, hcs⟩ := exists_lines_eq_cons cs
    exact ⟨[], [], rfl, rfl, by simp [hcs]⟩
  | cons c rest ih =>
    obtain ⟨earlier, before, hlength, hflatten, hlines⟩ := ih
    rw [List.cons_append, lines, hlines]
    by_cases hc : c = '\n'
    · refine ⟨[c] :: earlier, before, ?_, ?_, if_pos hc⟩
      · rw [List.length_cons, hlength, hc, List.count_cons_self]
      · rw [List.flatten_cons, List.append_assoc, hflatten]
        rfl
    · have hcount : (c :: rest).count '\n' = rest.count '\n' := List.count_cons_of_ne hc
      rw [if_neg hc, hcount]
      cases earlier with
      | nil =>
        obtain ⟨first, more, hcs⟩ := exists_lines_eq_cons cs
        have hbefore : before = rest := by simpa using hflatten
        exact ⟨[], c :: before, hlength, by simp [hbefore], by simp [hcs]⟩
      | cons line earlier =>
        refine ⟨(c :: line) :: earlier, before, hlength, ?_, by simp⟩
        rw [← hflatten]
        simp

/-! ## The stretches of lines -/

/-- The stretches of lines in a text that begins at `offset`; the last one ends one character behind
the text. -/
def stretches (offset : Nat) : List (List Char) → List Span
  | [] => []
  | [line] => [⟨offset, offset + line.length + 1⟩]
  | line :: next :: more =>
    ⟨offset, offset + line.length⟩ :: stretches (offset + line.length) (next :: more)

theorem stretches_cons (offset : Nat) (line : List Char) {more : List (List Char)}
    (h : more ≠ []) : stretches offset (line :: more) =
      ⟨offset, offset + line.length⟩ :: stretches (offset + line.length) more := by
  cases more with
  | nil => exact absurd rfl h
  | cons next more => rfl

theorem length_stretches (offset : Nat) (lines : List (List Char)) :
    (stretches offset lines).length = lines.length := by
  fun_induction stretches offset lines with
  | case1 => rfl
  | case2 => rfl
  | case3 offset line next more ih => rw [List.length_cons, List.length_cons, ih]

theorem le_start_of_mem_stretches {offset : Nat} {lines : List (List Char)} {s : Span}
    (h : s ∈ stretches offset lines) : offset ≤ s.start := by
  fun_induction stretches offset lines with
  | case1 => cases h
  | case2 offset line =>
    rw [List.mem_singleton] at h
    simp [h]
  | case3 offset line next more ih =>
    rcases List.mem_cons.mp h with rfl | h
    · exact Nat.le_refl offset
    · have hle := ih h
      omega

/-- The stretches of lines hold the lines. -/
theorem map_slice_stretches {cs : List Char} {offset : Nat} {lines : List (List Char)}
    (h : cs.drop offset = lines.flatten) : (stretches offset lines).map (slice cs) = lines := by
  fun_induction stretches offset lines with
  | case1 => rfl
  | case2 offset line =>
    rw [List.map_singleton, slice, h]
    rw [List.flatten_cons, List.flatten_nil, List.append_nil, List.take_of_length_le]
    show line.length ≤ offset + line.length + 1 - offset
    omega
  | case3 offset line next more ih =>
    rw [List.map_cons, ih, slice, h]
    · simp
    · rw [← List.drop_drop, h]
      simp

theorem map_slice_lines (cs : List Char) : (stretches 0 (lines cs)).map (slice cs) = lines cs :=
  map_slice_stretches (flatten_lines cs).symm

/-- The stretches around one line: those before it lie before it, and those behind it behind it. -/
theorem stretches_around (offset : Nat) (earlier : List (List Char)) (line : List Char)
    (later : List (List Char)) : ∃ front stop back,
    stretches offset (earlier ++ line :: later) =
        front ++ ⟨offset + earlier.flatten.length, stop⟩ :: back ∧
      front.length = earlier.length ∧
      (∀ s ∈ front, s.stop ≤ offset + earlier.flatten.length) ∧
      (∀ s ∈ back, offset + earlier.flatten.length + line.length ≤ s.start) ∧
      offset + earlier.flatten.length + line.length ≤ stop ∧
      (later ≠ [] → stop = offset + earlier.flatten.length + line.length) := by
  induction earlier generalizing offset with
  | nil =>
    by_cases hlater : later = []
    · refine ⟨[], offset + line.length + 1, [], ?_, rfl, by simp, by simp, ?_, ?_⟩
      · rw [hlater]
        rfl
      · simp
      · exact fun h => absurd hlater h
    · refine ⟨[], offset + line.length, stretches (offset + line.length) later, ?_, rfl, by simp,
        fun s hs => ?_, by simp, fun _ => by simp⟩
      · exact stretches_cons offset line hlater
      · have hle := le_start_of_mem_stretches hs
        simpa using hle
  | cons first earlier ih =>
    obtain ⟨front, stop, back, hstretches, hlength, hfront, hback, hstop, hexact⟩ :=
      ih (offset + first.length)
    have hplace : offset + first.length + earlier.flatten.length =
        offset + (first :: earlier).flatten.length := by
      rw [List.flatten_cons, List.length_append]
      omega
    rw [hplace] at hstretches hfront hback hstop hexact
    refine ⟨⟨offset, offset + first.length⟩ :: front, stop, back, ?_, ?_, ?_, hback, hstop, hexact⟩
    · rw [List.cons_append, stretches_cons _ _ (by simp), hstretches]
      rfl
    · simp [hlength]
    · refine List.forall_mem_cons.mpr ⟨?_, hfront⟩
      show offset + first.length ≤ _
      omega

end Text
end Quill
