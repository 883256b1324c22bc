import Quill.Text.Trim
import Quill.Text.Word
import Quill.Text.Scan

/-!
Words separated by white space.  `Text.Words word cs rest` says that `cs` is a word, white
space and the text `rest`, which begins with something else; the ways in which a tag is taken
apart are shown to find exactly such decompositions.
-/

namespace Quill
namespace Text

/-! ## Runs of a class of characters -/

section Runs

variable {α : Type} {p : α → Bool}

theorem takeWhile_append_of_all {front back : List α} (hfront : ∀ c ∈ front, p c = true)
    (hback : ∀ c, back.head? = some c → p c = false) :
    (front ++ back).takeWhile p = front := by
  rw [List.takeWhile_append_of_pos hfront]
  cases back with
  | nil => simp
  | cons c rest => simp [hback c rfl]

theorem dropWhile_append_of_all {front back : List α} (hfront : ∀ c ∈ front, p c = true)
    (hback : ∀ c, back.head? = some c → p c = false) :
    (front ++ back).dropWhile p = back := by
  rw [List.dropWhile_append_of_pos hfront]
  cases back with
  | nil => rfl
  | cons c rest => simp [hback c rfl]

theorem of_mem_takeWhile {cs : List α} {c : α} (h : c ∈ cs.takeWhile p) : p c = true :=
  List.all_eq_true.mp List.all_takeWhile c h

theorem not_mem_of_forall {c : α} (hc : p c = false) {cs : List α} (h : ∀ d ∈ cs, p d = true) :
    c ∉ cs := by
  intro hmem
  rw [h c hmem] at hc
  cases hc

end Runs

/-! ## White space -/

/-- What holds of no character in the table of white space holds of no white space. -/
theorem eq_false_of_isBlank {p : Char → Bool} (check : ∀ r ∈ blankRanges,
    ∀ k ∈ List.range (r.2 + 1 - r.1), p (Char.ofNat (r.1 + k)) = false) {c : Char}
    (h : isBlank c = true) : p c = false := by
  obtain ⟨r, hr, hlow, hhigh⟩ := exists_range_of_inRanges h
  have hk := check r hr (c.toNat - r.1) (List.mem_range.mpr (by omega))
  rwa [show r.1 + (c.toNat - r.1) = c.toNat by omega, Char.ofNat_toNat] at hk

/-- No white space is a word character. -/
theorem isWord_of_isBlank {c : Char} (h : isBlank c = true) : isWord c = false :=
  eq_false_of_isBlank (by decide +kernel) h

theorem isBlank_of_all {cs : List Char} (h : (cs.all fun c => !isBlank c) = true) :
    ∀ c ∈ cs, isBlank c = false := by
  simpa using h

def Flush (cs : List Char) : Prop := ∀ c, cs.head? = some c → isBlank c = false

theorem flush_cons {c : Char} (h : isBlank c = false) (rest : List Char) : Flush (c :: rest) := by
  intro d hd
  obtain rfl : c = d := Option.some.inj hd
  exact h

/-- What begins with characters of a class without white space is flush. -/
theorem flush_of_class {p : Char → Bool} (hp : ∀ c, isBlank c = true → p c = false)
    {cs : List Char} (hne : cs ≠ []) (h : ∀ c ∈ cs, p c = true) (rest : List Char) :
    Flush (cs ++ rest) := by
  obtain ⟨c, others, rfl⟩ := List.exists_cons_of_ne_nil hne
  refine flush_cons ?_ (others ++ rest)
  have hc := h c List.mem_cons_self
  cases hblank : isBlank c with
  | false => rfl
  | true => exact absurd hc (by simp [hp c hblank])

theorem flush_word {word : List Char} (hne : word ≠ []) (h : ∀ c ∈ word, isWord c = true)
    (rest : List Char) : Flush (word ++ rest) :=
  flush_of_class (fun _ => isWord_of_isBlank) hne h rest

structure Gap (cs : List Char) : Prop where
  ne_nil : cs ≠ []
  blank : ∀ c ∈ cs, isBlank c = true

/-- White space before something else is passed over. -/
theorem exists_dropWhile_isBlank (cs : List Char) :
    ∃ lead, (∀ c ∈ lead, isBlank c = true) ∧ cs = lead ++ cs.dropWhile isBlank :=
  ⟨cs.takeWhile isBlank, fun _ => of_mem_takeWhile, List.takeWhile_append_dropWhile.symm⟩

theorem Flush.trimLeft {cs : List Char} (h : Flush cs) : trimLeft cs = cs :=
  dropWhile_eq_self_of_head h

theorem flush_trimLeft (cs : List Char) : Flush (Text.trimLeft cs) := fun _ => head?_dropWhile

theorem flush_of_trim {cs : List Char} (h : trim cs = cs) : Flush cs := by
  intro c hc
  exact head?_trim (h.symm ▸ hc)

/-- A text keeps its end when it is trimmed unless it ends in white space. -/
theorem trimRight_eq_self_iff {cs : List Char} : trimRight cs = cs ↔ Flush cs.reverse := by
  constructor
  · intro h c hc
    have hrev : cs.reverse.dropWhile isBlank = cs.reverse := by
      rw [← List.reverse_reverse (cs.reverse.dropWhile isBlank)]
      exact congrArg List.reverse h
    exact head?_dropWhile (hrev.symm ▸ hc)
  · intro h
    rw [trimRight, dropWhile_eq_self_of_head h, List.reverse_reverse]

/-- A text without white space is trimmed. -/
theorem trim_of_forall {cs : List Char} (h : ∀ c ∈ cs, isBlank c = false) : trim cs = cs := by
  have hstart : Flush cs := fun c hc => h c (List.mem_of_head? hc)
  have hend : Flush cs.reverse := fun c hc => h c (List.mem_reverse.mp (List.mem_of_head? hc))
  rw [trim, hstart.trimLeft, trimRight_eq_self_iff.mpr hend]

/-- The end of a trimmed text is trimmed if it begins with something. -/
theorem trim_suffix {front back : List Char} (h : trim (front ++ back) = front ++ back)
    (hback : Flush back) : trim back = back := by
  rw [trim, hback.trimLeft, trimRight_eq_self_iff]
  rw [trim, (flush_of_trim h).trimLeft, trimRight_eq_self_iff, List.reverse_append] at h
  intro c hc
  exact h c (by rw [List.head?_append, hc]; rfl)

/-- What stands between white space is the trimmed text, if it neither begins nor ends with white
space. -/
theorem trim_between {lead mid trail : List Char} (hlead : ∀ c ∈ lead, isBlank c = true)
    (htrail : ∀ c ∈ trail, isBlank c = true) (hstart : Flush (mid ++ trail))
    (hend : Flush mid.reverse) : trim (lead ++ (mid ++ trail)) = mid := by
  have hright : (trail.reverse ++ mid.reverse).dropWhile isBlank = mid.reverse :=
    dropWhile_append_of_all (fun c hc => htrail c (List.mem_reverse.mp hc)) hend
  rw [trim, trimLeft, dropWhile_append_of_all hlead hstart, trimRight, List.reverse_append, hright,
    List.reverse_reverse]

theorem trim_blanks_append {lead : List Char} (h : ∀ c ∈ lead, isBlank c = true)
    (cs : List Char) : trim (lead ++ cs) = trim cs := by
  rw [trim, trimLeft, List.dropWhile_append_of_pos h]
  rfl

theorem trimRight_append_blanks {trail : List Char} (h : ∀ c ∈ trail, isBlank c = true)
    (cs : List Char) : trimRight (cs ++ trail) = trimRight cs := by
  rw [trimRight, List.reverse_append,
    List.dropWhile_append_of_pos fun c hc => h c (List.mem_reverse.mp hc)]
  rfl

theorem trim_append_blanks {trail : List Char} (h : ∀ c ∈ trail, isBlank c = true)
    (cs : List Char) : trim (cs ++ trail) = trim cs := by
  rw [trim, trim, trimLeft, trimLeft, List.dropWhile_append]
  split
  · next hempty =>
    have htrail : (trail ++ []).dropWhile isBlank = [] := List.dropWhile_append_of_pos h
    rw [List.append_nil] at htrail
    rw [htrail, List.isEmpty_iff.mp hempty]
  · exact trimRight_append_blanks h _

/-- Behind something else only the end of a text is trimmed. -/
theorem trimRight_append {front : List Char} (h : Flush front.reverse) (back : List Char) :
    trimRight (front ++ back) = front ++ trimRight back := by
  have hfront : front.reverse.dropWhile isBlank = front.reverse := dropWhile_eq_self_of_head h
  rw [trimRight, trimRight, List.reverse_append, List.dropWhile_append]
  split
  · next hempty =>
    rw [hfront, List.isEmpty_iff.mp hempty, List.reverse_reverse, List.reverse_nil,
      List.append_nil]
  · rw [List.reverse_append, List.reverse_reverse]

theorem trim_isInfix (cs : List Char) : trim cs <:+: cs := by
  have hright : trimRight (trimLeft cs) <+: trimLeft cs := by
    rw [← List.reverse_suffix, trimRight, List.reverse_reverse]
    exact List.dropWhile_suffix _
  exact hright.isInfix.trans (List.dropWhile_suffix _).isInfix

theorem exists_trimRight (cs : List Char) :
    ∃ trail, cs = trimRight cs ++ trail ∧ ∀ c ∈ trail, isBlank c = true := by
  refine ⟨(cs.reverse.takeWhile isBlank).reverse, ?_,
    fun c hc => of_mem_takeWhile (List.mem_reverse.mp hc)⟩
  rw [trimRight, ← List.reverse_append, List.takeWhile_append_dropWhile, List.reverse_reverse]

/-- A text is white space, the trimmed text and white space. -/
theorem exists_trim (cs : List Char) : ∃ lead trail, cs = lead ++ (trim cs ++ trail) ∧
    (∀ c ∈ lead, isBlank c = true) ∧ (∀ c ∈ trail, isBlank c = true) ∧
    Flush (trim cs ++ trail) := by
  obtain ⟨trail, htrail, hblank⟩ := exists_trimRight (trimLeft cs)
  have hright : trim cs ++ trail = trimLeft cs := htrail.symm
  refine ⟨cs.takeWhile isBlank, trail, ?_, fun _ => of_mem_takeWhile, hblank, ?_⟩
  · rw [hright, trimLeft, List.takeWhile_append_dropWhile]
  · rw [hright]
    exact flush_trimLeft cs

theorem flush_reverse_trim (cs : List Char) : Flush (trim cs).reverse := by
  rw [← trimRight_eq_self_iff, trim, trimRight_trimRight]

/-! ## A word and what follows it -/

def Words (word cs rest : List Char) : Prop :=
  ∃ gap, gap ≠ [] ∧ (∀ c ∈ gap, isBlank c = true) ∧ Flush rest ∧ cs = word ++ (gap ++ rest)

/-- After a word, white space and what follows it are found by passing over the white space. -/
theorem words_append_iff {word back rest : List Char} :
    Words word (word ++ back) rest ↔ run isBlank back ≠ 0 ∧ trimLeft back = rest := by
  constructor
  · rintro ⟨gap, hgap, hblanks, hrest, heq⟩
    obtain rfl := List.append_cancel_left heq
    refine ⟨?_, dropWhile_append_of_all hblanks hrest⟩
    rw [run, takeWhile_append_of_all hblanks hrest]
    exact fun h => hgap (List.length_eq_zero_iff.mp h)
  · rintro ⟨hrun, rfl⟩
    refine ⟨back.takeWhile isBlank, fun h => hrun (by rw [run, h]; rfl),
      fun c => of_mem_takeWhile, flush_trimLeft back, ?_⟩
    rw [trimLeft, List.takeWhile_append_dropWhile]

/-- What follows a word is determined. -/
theorem Words.unique {word cs rest rest' : List Char} (h : Words word cs rest)
    (h' : Words word cs rest') : rest = rest' := by
  obtain ⟨gap, -, -, -, rfl⟩ := id h
  rw [words_append_iff] at h h'
  exact h.2.symm.trans h'.2

/-- A word of a class of characters without white space is the leading run of the class. -/
theorem Words.run {p : Char → Bool} {word cs rest : List Char} (h : Words word cs rest)
    (hword : ∀ c ∈ word, p c = true) (hblank : ∀ c, isBlank c = true → p c = false) :
    cs.takeWhile p = word ∧ Text.run isBlank (cs.dropWhile p) ≠ 0 ∧
      trimLeft (cs.dropWhile p) = rest := by
  obtain ⟨gap, hgap, hblanks, hrest, rfl⟩ := id h
  have hhead : ∀ c, (gap ++ rest).head? = some c → p c = false := by
    intro c hc
    cases gap with
    | nil => exact absurd rfl hgap
    | cons d more =>
      obtain rfl : d = c := by simpa using hc
      exact hblank d (hblanks d (List.mem_cons_self ..))
  rw [takeWhile_append_of_all hword hhead, dropWhile_append_of_all hword hhead]
  exact ⟨rfl, words_append_iff.mp h⟩

/-- The leading run of a class of characters is a word if white space follows it. -/
theorem words_of_run {p : Char → Bool} {cs : List Char} (h : run isBlank (cs.dropWhile p) ≠ 0) :
    Words (cs.takeWhile p) cs (trimLeft (cs.dropWhile p)) := by
  have hwords : Words (cs.takeWhile p) (cs.takeWhile p ++ cs.dropWhile p)
      (trimLeft (cs.dropWhile p)) := words_append_iff.mpr ⟨h, rfl⟩
  rwa [List.takeWhile_append_dropWhile] at hwords

/-- The rest after a word of a trimmed text is trimmed. -/
theorem Words.trim_rest {word cs rest : List Char} (h : Words word cs rest)
    (hcs : trim cs = cs) : trim rest = rest := by
  obtain ⟨gap, -, -, hrest, rfl⟩ := h
  rw [← List.append_assoc] at hcs
  exact trim_suffix hcs hrest

/-! ## The first word -/

def Solid (cs : List Char) : Prop := (cs.all fun c => !isBlank c) = true

instance (cs : List Char) : Decidable (Solid cs) := inferInstanceAs (Decidable (_ = true))

/-- A word without white space is the first of a text that begins with it. -/
theorem Words.firstWord {word cs rest : List Char} (h : Words word cs rest) (hcs : Flush cs)
    (hword : Solid word) : firstWord cs = word ∧ afterFirstWord cs = rest := by
  have hrun := h.run (List.all_eq_true.mp hword) (by simp)
  rw [Text.firstWord, afterFirstWord, hcs.trimLeft]
  exact ⟨hrun.1, hrun.2.2⟩

/-- A text of several words is its first word and what follows that. -/
theorem words_firstWord {cs : List Char} (hcs : Flush cs) (h : afterFirstWord cs ≠ []) :
    Words (firstWord cs) cs (afterFirstWord cs) := by
  rw [afterFirstWord, hcs.trimLeft] at h ⊢
  rw [firstWord, hcs.trimLeft]
  refine words_of_run ?_
  intro hrun
  cases hrest : cs.dropWhile fun c => !isBlank c with
  | nil => exact h (by rw [hrest]; rfl)
  | cons c rest =>
    have hc : isBlank c = true := by
      have hhead : (cs.dropWhile fun c => !isBlank c).head? = some c := by rw [hrest]; rfl
      simpa using head?_dropWhile hhead
    rw [hrest, Text.run, List.takeWhile_cons_of_pos hc] at hrun
    cases hrun

theorem afterFirstWord_isInfix (cs : List Char) : afterFirstWord cs <:+: cs := by
  have hword := List.dropWhile_suffix (l := trimLeft cs) fun c => !isBlank c
  have hrest := (List.dropWhile_suffix isBlank).trans hword
  exact (hrest.trans (List.dropWhile_suffix isBlank)).isInfix

/-- A single word is its own first word. -/
theorem firstWord_of_solid {word : List Char} (h : Solid word) : firstWord word = word := by
  have hword := List.all_eq_true.mp h
  have hflush : Flush word := fun c hc => by simpa using hword c (List.mem_of_head? hc)
  have htake : (word ++ []).takeWhile (fun c => !isBlank c) = word :=
    takeWhile_append_of_all hword (by simp)
  rw [firstWord, hflush.trimLeft]
  rwa [List.append_nil] at htake

end Text
end Quill
