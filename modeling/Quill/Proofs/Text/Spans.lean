import Quill.Text.Scan

/-!
Stretches of a text, and where the matches of a recogniser lie.  If the recogniser never reaches
beyond the text, its matches follow one another without overlapping, and each of them is as long
as the recogniser says.
-/

namespace Quill
namespace Text

/-! ## Stretches of a text -/

def Ordered : Nat → Nat → List Span → Prop
  | start, stop, [] => start ≤ stop
  | start, stop, s :: rest => start ≤ s.start ∧ s.start < s.stop ∧ Ordered s.stop stop rest

theorem Ordered.le {start stop : Nat} {spans : List Span} (h : Ordered start stop spans) :
    start ≤ stop := by
  induction spans generalizing start with
  | nil => exact h
  | cons s rest ih =>
    obtain ⟨hstart, hlt, hrest⟩ := h
    have hstop := ih hrest
    omega

theorem Ordered.of_le {start start' stop : Nat} {spans : List Span}
    (h : Ordered start stop spans) (hle : start' ≤ start) : Ordered start' stop spans := by
  cases spans with
  | nil => exact Nat.le_trans hle h
  | cons s rest => exact ⟨Nat.le_trans hle h.1, h.2⟩

theorem length_slice {cs : List Char} {s : Span} (h : s.stop ≤ cs.length) :
    (slice cs s).length = s.stop - s.start := by
  simp only [slice, List.length_take, List.length_drop]
  omega

/-- A stretch is what is left of a longer one that begins earlier. -/
theorem drop_slice {cs : List Char} {start middle stop : Nat} (h : start ≤ middle) :
    (slice cs ⟨start, stop⟩).drop (middle - start) = slice cs ⟨middle, stop⟩ := by
  have hdrop : start + (middle - start) = middle := by omega
  have htake : stop - start - (middle - start) = stop - middle := by omega
  rw [slice, slice, List.drop_take, List.drop_drop, hdrop, htake]

/-- The text up to the end of a stretch is what comes before it and the stretch. -/
theorem take_append_slice {cs : List Char} {s : Span} (h : s.start ≤ s.stop) :
    cs.take s.start ++ slice cs s = cs.take s.stop := by
  have hstop : s.stop = s.start + (s.stop - s.start) := by omega
  rw [slice, hstop, List.take_add]
  simp

/-- Two stretches in a row are one. -/
theorem slice_append_slice {cs : List Char} {start middle stop : Nat} (hstart : start ≤ middle)
    (hstop : middle ≤ stop) :
    slice cs ⟨start, middle⟩ ++ slice cs ⟨middle, stop⟩ = slice cs ⟨start, stop⟩ := by
  have hlength : stop - start = (middle - start) + (stop - middle) := by omega
  have hdrop : (cs.drop start).drop (middle - start) = cs.drop middle := by
    rw [List.drop_drop, show start + (middle - start) = middle by omega]
  simp only [slice]
  rw [hlength, List.take_add, hdrop]

theorem slice_isInfix (cs : List Char) (s : Span) : slice cs s <:+: cs :=
  (List.take_prefix ..).isInfix.trans (List.drop_suffix ..).isInfix

/-- Every stretch begins where the first one may or later. -/
theorem Ordered.le_start {start stop : Nat} {spans : List Span} (h : Ordered start stop spans)
    {s : Span} (hs : s ∈ spans) : start ≤ s.start := by
  induction spans generalizing start with
  | nil => cases hs
  | cons first rest ih =>
    obtain ⟨hstart, hlt, hrest⟩ := h
    rcases List.mem_cons.mp hs with rfl | hs
    · exact hstart
    · have hlater := ih hrest hs
      omega

/-- No stretch is empty, and each ends where the last one may or before. -/
theorem Ordered.within {start stop : Nat} {spans : List Span} (h : Ordered start stop spans)
    {s : Span} (hs : s ∈ spans) : s.start < s.stop ∧ s.stop ≤ stop := by
  induction spans generalizing start with
  | nil => cases hs
  | cons first rest ih =>
    obtain ⟨-, hlt, hrest⟩ := h
    rcases List.mem_cons.mp hs with rfl | hs
    · exact ⟨hlt, hrest.le⟩
    · exact ih hrest hs

/-- Of two stretches the one that begins first ends before the other begins. -/
theorem Ordered.stop_le_start {start stop : Nat} {spans : List Span} (h : Ordered start stop spans)
    {s u : Span} (hs : s ∈ spans) (hu : u ∈ spans) (hlt : s.start < u.start) :
    s.stop ≤ u.start := by
  induction spans generalizing start with
  | nil => cases hs
  | cons first rest ih =>
    obtain ⟨-, hfirst, hrest⟩ := h
    rcases List.mem_cons.mp hs with rfl | hsrest
    · rcases List.mem_cons.mp hu with rfl | hurest
      · exact absurd hlt (Nat.lt_irrefl _)
      · exact hrest.le_start hurest
    · rcases List.mem_cons.mp hu with rfl | hurest
      · have hlater := hrest.le_start hsrest
        omega
      · exact ih hrest hsrest hurest

def Span.shift (k : Nat) (s : Span) : Span := ⟨k + s.start, k + s.stop⟩

theorem slice_shift (front cs : List Char) (s : Span) :
    slice (front ++ cs) (s.shift front.length) = slice cs s := by
  rw [slice, slice, Span.shift, ← List.drop_drop, List.drop_left, Nat.add_sub_add_left]

theorem slice_append {cs : List Char} {s : Span} (hstart : s.start ≤ s.stop)
    (hstop : s.stop ≤ cs.length) (back : List Char) : slice (cs ++ back) s = slice cs s := by
  have hlength : s.stop - s.start ≤ (cs.drop s.start).length := by
    rw [List.length_drop]
    omega
  rw [slice, slice, List.drop_append_of_le_length (by omega), List.take_append_of_le_length hlength]

def Outside (spans : List Span) (place : Nat) : Prop :=
  ∀ s ∈ spans, ¬ (s.start ≤ place ∧ place < s.stop)

/-! ## Matches -/

def Bounded (length? : List Char → Option Nat) : Prop :=
  ∀ cs n, length? cs = some n → n ≤ cs.length

section Matches

variable {length? : List Char → Option Nat}

theorem matchesFrom_of_match {c : Char} {rest : List Char} {n : Nat}
    (h : length? (c :: rest) = some (n + 1)) (offset : Nat) :
    matchesFrom length? 0 offset (c :: rest) =
      ⟨offset, offset + n + 1⟩ :: matchesFrom length? n (offset + 1) rest := by
  rw [matchesFrom, h]

theorem matchesFrom_of_no_match {c : Char} {rest : List Char}
    (h : ∀ n, length? (c :: rest) ≠ some (n + 1)) (offset : Nat) :
    matchesFrom length? 0 offset (c :: rest) = matchesFrom length? 0 (offset + 1) rest := by
  rw [matchesFrom]
  split
  · next n hn => exact absurd hn (h n)
  · rfl

theorem matchesFrom_ordered (hbounded : Bounded length?) (skip offset : Nat) {cs : List Char}
    (hskip : skip ≤ cs.length) :
    Ordered (offset + skip) (offset + cs.length) (matchesFrom length? skip offset cs) := by
  induction cs generalizing skip offset with
  | nil =>
    have hzero : skip = 0 := Nat.le_zero.mp hskip
    subst hzero
    exact Nat.le_refl offset
  | cons c rest ih =>
    have hlength : offset + (c :: rest).length = offset + 1 + rest.length := by
      simp only [List.length_cons]
      omega
    rw [hlength]
    cases skip with
    | succ skip =>
      have hrest := ih skip (offset + 1) (Nat.le_of_succ_le_succ hskip)
      rw [matchesFrom]
      rwa [show offset + (skip + 1) = offset + 1 + skip by omega]
    | zero =>
      have hnext := ih 0 (offset + 1) (Nat.zero_le _)
      rw [matchesFrom]
      split
      · next n hn =>
        have hle := hbounded _ _ hn
        have hrest := ih n (offset + 1) (Nat.le_of_succ_le_succ hle)
        refine ⟨Nat.le_refl _, ?_, ?_⟩
        · show offset < offset + n + 1
          omega
        · show Ordered (offset + n + 1) _ _
          rwa [show offset + n + 1 = offset + 1 + n by omega]
      · exact hnext.of_le (by omega)

/-- Each match is one of the recogniser at the place where it begins. -/
theorem length_of_mem_matchesFrom {skip offset : Nat} {cs : List Char} {s : Span}
    (h : s ∈ matchesFrom length? skip offset cs) :
    ∃ k, s.start = offset + k ∧ length? (cs.drop k) = some (s.stop - s.start) := by
  induction cs generalizing skip offset with
  | nil => simp [matchesFrom] at h
  | cons c rest ih =>
    have later : ∀ {skip}, s ∈ matchesFrom length? skip (offset + 1) rest →
        ∃ k, s.start = offset + k ∧ length? ((c :: rest).drop k) = some (s.stop - s.start) := by
      intro skip hmem
      obtain ⟨k, hstart, hlength⟩ := ih hmem
      exact ⟨k + 1, by omega, hlength⟩
    cases skip with
    | succ skip =>
      rw [matchesFrom] at h
      exact later h
    | zero =>
      rw [matchesFrom] at h
      split at h
      · next n hn =>
        rcases List.mem_cons.mp h with rfl | hmem
        · refine ⟨0, rfl, ?_⟩
          show length? (c :: rest) = some (offset + n + 1 - offset)
          rw [hn, show offset + n + 1 - offset = n + 1 by omega]
        · exact later hmem
      · exact later h

theorem matchSpans_ordered (hbounded : Bounded length?) (cs : List Char) :
    Ordered 0 cs.length (matchSpans length? cs) := by
  have h := matchesFrom_ordered hbounded 0 0 (Nat.zero_le cs.length)
  rw [matchSpans]
  simpa only [Nat.zero_add] using h

theorem length_of_mem_matchSpans {cs : List Char} {s : Span} (h : s ∈ matchSpans length? cs) :
    length? (cs.drop s.start) = some (s.stop - s.start) := by
  obtain ⟨k, hstart, hlength⟩ := length_of_mem_matchesFrom h
  rw [Nat.zero_add] at hstart
  rwa [← hstart] at hlength

/-- No match begins outside of the matches that are found. -/
theorem no_match_of_outside {skip offset place : Nat} {cs : List Char} (hskip : skip ≤ place)
    (h : Outside (matchesFrom length? skip offset cs) (offset + place)) (n : Nat)
    (hcs : place < cs.length) : length? (cs.drop place) ≠ some (n + 1) := by
  induction cs generalizing skip offset place with
  | nil => cases hcs
  | cons c rest ih =>
    have hplace : ∀ place, offset + (place + 1) = offset + 1 + place := fun place => by omega
    have hrest : ∀ place, place + 1 < (c :: rest).length → place < rest.length :=
      fun place => Nat.lt_of_succ_lt_succ
    cases skip with
    | succ skip =>
      cases place with
      | zero => cases hskip
      | succ place =>
        rw [hplace] at h
        exact ih (Nat.le_of_succ_le_succ hskip) h (hrest place hcs)
    | zero =>
      by_cases hmatch : ∃ m, length? (c :: rest) = some (m + 1)
      · obtain ⟨m, hm⟩ := hmatch
        rw [matchesFrom_of_match hm] at h
        obtain ⟨hfirst, hlater⟩ := List.forall_mem_cons.mp h
        dsimp only at hfirst
        cases place with
        | zero => omega
        | succ place =>
          have hlater : Outside _ _ := hlater
          rw [hplace place] at hlater
          exact ih (by omega) hlater (hrest place hcs)
      · cases place with
        | zero => exact fun hn => hmatch ⟨n, hn⟩
        | succ place =>
          rw [matchesFrom_of_no_match (fun m hm => hmatch ⟨m, hm⟩), hplace place] at h
          exact ih (Nat.zero_le _) h (hrest place hcs)

/-- Over each place where a match begins lies a match that is found. -/
theorem exists_match_over {cs : List Char} {place n : Nat}
    (h : length? (cs.drop place) = some (n + 1)) (hplace : place < cs.length) :
    ∃ s ∈ matchSpans length? cs, s.start ≤ place ∧ place < s.stop := by
  refine Classical.byContradiction fun hnone => ?_
  have houtside : Outside (matchesFrom length? 0 0 cs) (0 + place) := by
    intro s hs hover
    rw [Nat.zero_add] at hover
    exact hnone ⟨s, hs, hover⟩
  exact no_match_of_outside (Nat.zero_le _) houtside n hplace h

/-- A match is found if no match that is found lies over the place where it begins. -/
theorem mem_matchSpans_of_match (hbounded : Bounded length?) {cs : List Char} {place n : Nat}
    (h : length? (cs.drop place) = some (n + 1))
    (hfree : ∀ s ∈ matchSpans length? cs, ¬ (s.start < place ∧ place < s.stop)) :
    ⟨place, place + n + 1⟩ ∈ matchSpans length? cs := by
  have hplace : place < cs.length := by
    have hle := hbounded _ _ h
    rw [List.length_drop] at hle
    omega
  obtain ⟨s, hs, hstart, hstop⟩ := exists_match_over h hplace
  have heq : s.start = place := by
    have hnot := hfree s hs
    omega
  have hlength := length_of_mem_matchSpans hs
  rw [heq, h, Option.some.injEq] at hlength
  have hsame : s = ⟨place, place + n + 1⟩ := by
    obtain ⟨start, stop⟩ := s
    simp only [Span.mk.injEq] at heq hlength hstop ⊢
    omega
  rwa [← hsame]

/-! ## Texts one after another -/

/-- A recogniser that finds a match whatever follows it. -/
def Stable (length? : List Char → Option Nat) : Prop :=
  ∀ cs more n, length? cs = some n → length? (cs ++ more) = some n

theorem matchesFrom_shift (k skip offset : Nat) (cs : List Char) :
    matchesFrom length? skip (k + offset) cs =
      (matchesFrom length? skip offset cs).map (Span.shift k) := by
  induction cs generalizing skip offset with
  | nil => rfl
  | cons c rest ih =>
    have hnext : ∀ skip, matchesFrom length? skip (k + offset + 1) rest =
        (matchesFrom length? skip (offset + 1) rest).map (Span.shift k) := fun skip => by
      rw [Nat.add_assoc, ih]
    cases skip with
    | succ skip => exact hnext skip
    | zero =>
      rw [matchesFrom, matchesFrom]
      split
      · next n _ =>
        rw [List.map_cons, hnext, Span.shift, Nat.add_assoc k offset, Nat.add_assoc k]
      · exact hnext 0

/-- What belongs to the match before is passed over. -/
theorem matchesFrom_skip {skip : Nat} {cs : List Char} (h : skip ≤ cs.length) (offset : Nat) :
    matchesFrom length? skip offset cs = matchesFrom length? 0 (offset + skip) (cs.drop skip) := by
  induction cs generalizing skip offset with
  | nil =>
    obtain rfl : skip = 0 := Nat.le_zero.mp h
    rfl
  | cons c rest ih =>
    cases skip with
    | zero => rfl
    | succ skip =>
      rw [matchesFrom, ih (Nat.le_of_succ_le_succ h), List.drop_succ_cons,
        show offset + 1 + skip = offset + (skip + 1) by omega]

/-- Behind a match that begins a text the matches are those of what is left. -/
theorem matchSpans_append {front back : List Char} (hne : front ≠ [])
    (h : length? (front ++ back) = some front.length) :
    matchSpans length? (front ++ back) =
      ⟨0, front.length⟩ :: (matchSpans length? back).map (Span.shift front.length) := by
  obtain ⟨c, rest, rfl⟩ := List.exists_cons_of_ne_nil hne
  have h : length? (c :: (rest ++ back)) = some (rest.length + 1) := h
  have hskip : rest.length ≤ (rest ++ back).length := by simp
  have hlength : 0 + 1 + rest.length = (c :: rest).length + 0 := by
    rw [List.length_cons]
    omega
  rw [matchSpans, List.cons_append, matchesFrom_of_match h, matchesFrom_skip hskip, List.drop_left,
    hlength, matchesFrom_shift, List.length_cons, Nat.zero_add, matchSpans]

def matchedParts (length? : List Char → Option Nat) (cs : List Char) : List (List Char) :=
  (matchSpans length? cs).map (slice cs)

theorem matchedParts_append {front back : List Char} (hne : front ≠ [])
    (h : length? (front ++ back) = some front.length) :
    matchedParts length? (front ++ back) = front :: matchedParts length? back := by
  have hfirst : slice (front ++ back) ⟨0, front.length⟩ = front := by simp [slice]
  rw [matchedParts, matchSpans_append hne h, List.map_cons, hfirst, List.map_map]
  exact congrArg _ (List.map_congr_left fun s _ => slice_shift front back s)

theorem matchedParts_cons {c : Char} {rest : List Char}
    (h : ∀ n, length? (c :: rest) ≠ some (n + 1)) :
    matchedParts length? (c :: rest) = matchedParts length? rest := by
  rw [matchedParts, matchSpans, matchesFrom_of_no_match h]
  show (matchesFrom length? 0 (1 + 0) rest).map _ = _
  rw [matchesFrom_shift, List.map_map]
  exact List.map_congr_left fun s _ => slice_shift [c] rest s

/-- Nothing is found in what belongs to the match before. -/
theorem matchesFrom_length (offset : Nat) (cs : List Char) :
    matchesFrom length? cs.length offset cs = [] := by
  induction cs generalizing offset with
  | nil => rfl
  | cons c rest ih => exact ih (offset + 1)

/-- The matches in two texts in a row are those of each, if no match of the whole begins in the
first one outside of its own matches. -/
theorem matchesFrom_append (hbounded : Bounded length?) (hstable : Stable length?)
    {front back : List Char} {skip offset : Nat} (hskip : skip ≤ front.length)
    (hopen : ∀ place, skip ≤ place → place < front.length →
      Outside (matchesFrom length? skip offset front) (offset + place) →
      length? (front.drop place ++ back) = none) :
    matchesFrom length? skip offset (front ++ back) =
      matchesFrom length? skip offset front ++
        matchesFrom length? 0 (offset + front.length) back := by
  induction front generalizing skip offset with
  | nil =>
    obtain rfl : skip = 0 := Nat.le_zero.mp hskip
    rfl
  | cons c rest ih =>
    have hlength : offset + (c :: rest).length = offset + 1 + rest.length := by
      simp only [List.length_cons]
      omega
    rw [hlength]
    cases skip with
    | succ skip =>
      refine ih (Nat.le_of_succ_le_succ hskip) fun place hle hlt houtside => ?_
      refine hopen (place + 1) (by omega) (Nat.succ_lt_succ hlt) ?_
      rwa [show offset + (place + 1) = offset + 1 + place by omega]
    | zero =>
      by_cases hmatch : ∃ n, length? (c :: rest) = some (n + 1)
      · obtain ⟨n, hn⟩ := hmatch
        have hle := hbounded _ _ hn
        have hwhole : length? (c :: (rest ++ back)) = some (n + 1) := hstable _ back _ hn
        rw [matchesFrom_of_match hn] at hopen
        rw [matchesFrom_of_match hn, List.cons_append, matchesFrom_of_match hwhole,
          List.cons_append]
        refine congrArg _ (ih (Nat.le_of_succ_le_succ hle) fun place hplace hlt houtside => ?_)
        refine hopen (place + 1) (Nat.zero_le _) (Nat.succ_lt_succ hlt) ?_
        rw [Nat.add_right_comm] at houtside
        refine List.forall_mem_cons.mpr ⟨?_, houtside⟩
        show ¬ (offset ≤ offset + (place + 1) ∧ offset + (place + 1) < offset + n + 1)
        omega
      · have hnone : ∀ n, length? (c :: rest) ≠ some (n + 1) := fun n hn => hmatch ⟨n, hn⟩
        rw [matchesFrom_of_no_match hnone] at hopen
        have hbegin : Outside (matchesFrom length? 0 (offset + 1) rest) (offset + 0) := by
          intro s hs h
          have hstart := (matchesFrom_ordered hbounded 0 (offset + 1) (Nat.zero_le _)).le_start hs
          omega
        have hwhole : length? (c :: (rest ++ back)) = none :=
          hopen 0 (Nat.le_refl 0) (Nat.zero_lt_succ _) hbegin
        rw [matchesFrom_of_no_match hnone, List.cons_append,
          matchesFrom_of_no_match (by simp [hwhole])]
        refine ih (Nat.zero_le _) fun place _ hlt houtside => ?_
        refine hopen (place + 1) (Nat.zero_le _) (Nat.succ_lt_succ hlt) ?_
        rwa [Nat.add_right_comm] at houtside

end Matches

end Text
end Quill
