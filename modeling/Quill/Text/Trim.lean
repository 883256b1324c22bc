import Quill.Text.Blank

/-!
Trimming and splitting at white space.  `trim_trim` says that a trimmed text has no
white space left at either end, so that trimming again changes nothing.
-/

namespace Quill
namespace Text

def trimLeft (cs : List Char) : List Char := cs.dropWhile isBlank

def trimRight (cs : List Char) : List Char := (cs.reverse.dropWhile isBlank).reverse

def trim (cs : List Char) : List Char := trimRight (trimLeft cs)

def firstWord (cs : List Char) : List Char := (trimLeft cs).takeWhile fun c => !isBlank c

def afterFirstWord (cs : List Char) : List Char :=
  trimLeft ((trimLeft cs).dropWhile fun c => !isBlank c)

def trimmed (s : String) : String := String.ofList (trim s.toList)

theorem dropWhile_eq_self_of_head {p : Char → Bool} {cs : List Char}
    (h : ∀ c, cs.head? = some c → p c = false) : cs.dropWhile p = cs := by
  cases cs with
  | nil => rfl
  | cons c rest => simp [List.dropWhile, h c rfl]

theorem head?_dropWhile {p : Char → Bool} {cs : List Char} {c : Char}
    (h : (cs.dropWhile p).head? = some c) : p c = false := by
  induction cs with
  | nil => simp at h
  | cons d rest ih =>
    by_cases hd : p d
    · simp [hd] at h
      exact ih h
    · simp [hd] at h
      simpa [h] using hd

theorem trimRight_head? {cs : List Char} {c : Char}
    (h : (trimRight cs).head? = some c) : cs.head? = some c := by
  obtain ⟨front, hf⟩ : ∃ back, cs = trimRight cs ++ back := by
    refine ⟨(cs.reverse.takeWhile isBlank).reverse, ?_⟩
    rw [trimRight, ← List.reverse_append, List.takeWhile_append_dropWhile, List.reverse_reverse]
  rw [hf]
  cases hr : trimRight cs with
  | nil => simp [hr] at h
  | cons d rest => simpa [hr] using h

theorem trimRight_trimRight (cs : List Char) : trimRight (trimRight cs) = trimRight cs := by
  have h : ((cs.reverse.dropWhile isBlank)).dropWhile isBlank = cs.reverse.dropWhile isBlank :=
    dropWhile_eq_self_of_head fun _ => head?_dropWhile
  simp [trimRight, h]

/-- The first character of a trimmed text is not white space. -/
theorem head?_trim {cs : List Char} {c : Char} (h : (trim cs).head? = some c) :
    isBlank c = false :=
  head?_dropWhile (trimRight_head? h)

theorem trim_trim (cs : List Char) : trim (trim cs) = trim cs := by
  have h : trimLeft (trim cs) = trim cs := dropWhile_eq_self_of_head fun _ => head?_trim
  rw [trim, h, trim, trimRight_trimRight]

end Text
end Quill
