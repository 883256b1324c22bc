import Quill.Proofs.Expr.Operands
import Quill.Proofs.Text.Numerals

/-!
Paths written and read back.

The names and the indexes of a path that has been read can be written, and in the text of the path
no word is continued by what stands behind it: names end at a point or a bracket, numerals at a
bracket, and marks stand alone.  So the text is scanned as the words that it was put together from
(`scan_steps`), and it is read as the same path.  Hence paths with the same text are the same,
whatever white space, leading zeros and foreign digits they were read from.
-/

namespace Quill

open Text

/-! ## Words and what stands behind them -/

namespace Lexeme

variable {word : List Char} {c : Char}

theorem Shape.isWord_of_mem (h : Shape .name word) (hc : c ∈ word) : isWord c = true := by
  cases h with
  | name hstart hrest =>
    rcases List.mem_cons.mp hc with rfl | hc
    · exact (isWord_of_isNameStart hstart).1
    · exact hrest c hc

theorem Shape.isDigit_or_point_of_mem (h : Shape .number word) (hc : c ∈ word) :
    isDigit c = true ∨ c = '.' := by
  cases h with
  | whole _ hdigits => exact .inl (hdigits c hc)
  | fraction _ hdigits _ hplaces =>
    rcases List.mem_append.mp hc with hc | hc
    · exact .inl (hdigits c hc)
    rcases List.mem_cons.mp hc with rfl | hc
    · exact .inr rfl
    · exact .inl (hplaces c hc)

theorem scan_mark (hc : c ∈ marks) (back : List Char) (position : Nat) :
    scanFrom 0 position (c :: back) = (do
      let others ← scanFrom 0 (position + 1) back
      return ⟨.punct, String.ofList [c], position⟩ :: others) :=
  (longest_mark hc back).scan_append position

theorem shape_toDigits (n : Nat) : Shape .number (Nat.toDigits 10 n) :=
  .whole Nat.toDigits_ne_nil fun _ hc => isDigit_of_plain (isDigit_of_mem_toDigits hc)

end Lexeme

/-! ## Steps that can be written -/

/-- Whether a step can be written: a field has a name, and an index is a whole number that is short
enough. -/
inductive Segment.Writable : Segment → Prop
  | field {name : String} : Lexeme.Shape .name name.toList → Writable (.field name)
  | index {n : Nat} : n < Nat.pow 10 numeralLimit → Writable (.index (Int.ofNat n))

/-- An index that can be written is not too long for it. -/
theorem Segment.Writable.intText? {i : Int} (h : Writable (.index i)) :
    Text.intText? i = some (intText i) := by
  cases h with
  | index hlt => rw [Text.intText?, if_pos (by exact hlt)]

theorem Segment.toList_text_field (name : String) :
    (Segment.field name).text.toList = '.' :: name.toList := by
  rw [text, String.toList_append]
  rfl

theorem Segment.toList_text_index (n : Nat) :
    (Segment.index (Int.ofNat n)).text.toList = '[' :: (Nat.toDigits 10 n ++ [']']) := by
  have hsign : ¬ Int.ofNat n < 0 := Int.not_lt.mpr (Int.natCast_nonneg n)
  rw [text, intText, if_neg hsign, natText, Int.ofNat_eq_natCast, Int.natAbs_natCast]
  simp

theorem Path.toList_text (p : Path) :
    p.text.toList = p.root.toList ++ p.steps.flatMap fun s => s.text.toList := by
  rw [text, String.toList_append, String.toList_join, List.flatMap_map]

/-- The text of a step begins with a mark. -/
theorem head?_steps {steps : List Segment} {c : Char}
    (h : c ∈ (steps.flatMap fun s => s.text.toList).head?) : c = '.' ∨ c = '[' := by
  cases steps with
  | nil => cases h
  | cons s rest =>
    rw [List.flatMap_cons] at h
    cases s with
    | field name =>
      rw [Segment.toList_text_field] at h
      exact .inl (Option.some.inj h).symm
    | index i =>
      rw [Segment.text, String.toList_append, String.toList_append] at h
      exact .inr (Option.some.inj h).symm

/-! ## Scanning the text of a path -/

namespace Expr

/-- A name ends where a step begins. -/
theorem longest_name {name : String} (h : Lexeme.Shape .name name.toList) (steps : List Segment) :
    Lexeme.Longest .name name.toList
      (name.toList ++ steps.flatMap fun s => s.text.toList) := by
  refine h.longest_of_not_mem fun c hc word hword hmem => ?_
  have hletter := hword.isWord_of_mem hmem
  rcases head?_steps hc with rfl | rfl <;> exact absurd hletter (by decide)

/-- A numeral ends at a closing bracket. -/
theorem longest_numeral (n : Nat) (back : List Char) :
    Lexeme.Longest .number (Nat.toDigits 10 n) (Nat.toDigits 10 n ++ ']' :: back) := by
  refine (Lexeme.shape_toDigits n).longest_of_not_mem fun c hc word hword hmem => ?_
  obtain rfl : ']' = c := Option.some.inj hc
  rcases hword.isDigit_or_point_of_mem hmem with hdigit | hpoint
  · exact absurd hdigit (by decide)
  · exact absurd hpoint (by decide)

/-- An index is spelled by its numeral in brackets. -/
theorem SpellsSteps.numeral {body : List Lexeme} {steps : List Segment}
    (h : SpellsSteps body steps) (n : Nat) (first second third : Nat) :
    SpellsSteps (⟨.punct, "[", first⟩ :: ⟨.number, String.ofList (Nat.toDigits 10 n), second⟩ ::
      ⟨.punct, "]", third⟩ :: body) (.index (Int.ofNat n) :: steps) := by
  have hpoint : '.' ∉ (String.ofList (Nat.toDigits 10 n)).toList := by
    rw [String.toList_ofList]
    exact fun hmem => absurd (isDigit_of_mem_toDigits hmem) (by decide)
  have hread : natOfDigits (String.ofList (Nat.toDigits 10 n)).toList = n := by
    rw [String.toList_ofList, natOfDigits_toDigits]
  have hspelled := @SpellsSteps.index ⟨.punct, "[", first⟩
    ⟨.number, String.ofList (Nat.toDigits 10 n), second⟩ ⟨.punct, "]", third⟩ body steps
    ⟨rfl, rfl⟩ rfl hpoint ⟨rfl, rfl⟩ h
  rwa [hread] at hspelled

/-- The text of steps is scanned as the words of these steps. -/
theorem scan_steps {steps : List Segment} (h : ∀ s ∈ steps, s.Writable) (position : Nat) :
    ∃ body stop, Lexeme.scanFrom 0 position (steps.flatMap fun s => s.text.toList) =
      .ok (body ++ [stop]) ∧ SpellsSteps body steps ∧ ∀ l ∈ body, l.Short := by
  induction steps generalizing position with
  | nil => exact ⟨[], ⟨.eof, "", position⟩, rfl, .nil, by simp⟩
  | cons s rest ih =>
    obtain ⟨hs, hrest⟩ := List.forall_mem_cons.mp h
    have of_kind : ∀ {l : Lexeme}, l.kind ≠ .number → l.Short :=
      fun hl hnumber => absurd hnumber hl
    rw [List.flatMap_cons]
    cases hs with
    | @field name hname =>
      obtain ⟨body, stop, hscan, hspells, hshort⟩ := ih hrest (position + 1 + name.toList.length)
      refine ⟨⟨.punct, ".", position⟩ :: ⟨.name, name, position + 1⟩ :: body, stop, ?_,
        .field ⟨rfl, rfl⟩ rfl hspells, ?_⟩
      · rw [Segment.toList_text_field, List.cons_append, Lexeme.scan_mark (by decide),
          (longest_name hname rest).scan_append, hscan, String.ofList_toList]
        rfl
      · simp only [List.forall_mem_cons]
        exact ⟨of_kind (by simp), of_kind (by simp), hshort⟩
    | @index n hn =>
      obtain ⟨body, stop, hscan, hspells, hshort⟩ :=
        ih hrest (position + 1 + (Nat.toDigits 10 n).length + 1)
      have hlength : (String.ofList (Nat.toDigits 10 n)).length ≤ numeralLimit := by
        rw [String.length_ofList, length_toDigits_le_iff (by decide)]
        exact hn
      refine ⟨_, stop, ?_, hspells.numeral n position (position + 1)
        (position + 1 + (Nat.toDigits 10 n).length), ?_⟩
      · rw [Segment.toList_text_index, List.cons_append, List.append_assoc, List.singleton_append,
          Lexeme.scan_mark (by decide), (longest_numeral n _).scan_append,
          Lexeme.scan_mark (by decide), hscan]
        rfl
      · simp only [List.forall_mem_cons]
        exact ⟨of_kind (by simp), fun _ _ => hlength, of_kind (by simp), hshort⟩

/-- Steps that are spelled by words of a text can be written. -/
theorem SpellsSteps.writable {ls : List Lexeme} {steps : List Segment} (h : SpellsSteps ls steps)
    (hshape : ∀ l ∈ ls, l.kind ≠ .eof → Lexeme.Shape l.kind l.text.toList)
    (hshort : ∀ l ∈ ls, l.Short) : ∀ s ∈ steps, s.Writable := by
  induction h with
  | nil => simp
  | @field point name rest steps _ hname _ ih =>
    simp only [List.forall_mem_cons] at hshape hshort
    refine List.forall_mem_cons.mpr ⟨.field ?_, ih hshape.2.2 hshort.2.2⟩
    rw [← hname]
    exact hshape.2.1 (by rw [hname]; decide)
  | @index opening number closing rest steps _ hnumber hpoint _ _ ih =>
    simp only [List.forall_mem_cons] at hshape hshort
    refine List.forall_mem_cons.mpr ⟨.index ?_, ih hshape.2.2.2 hshort.2.2.2⟩
    have hlength : number.text.toList.length ≤ numeralLimit := by
      rw [String.length_toList]
      exact hshort.2.1 hnumber hpoint
    exact natOfDigits_lt_of_length_le hlength

end Expr

/-! ## Paths -/

namespace Path

/-- Whether a path can be written: its root is a name and no literal, and its steps can be
written. -/
structure Writable (p : Path) : Prop where
  root : Lexeme.Shape .name p.root.toList
  word : Literal.ofWord? p.root = none
  steps : ∀ s ∈ p.steps, s.Writable

theorem writable_of_parse {text : String} {p : Path} (h : parse text = .ok p) : p.Writable := by
  obtain ⟨body, stop, hlexemes, hspells, hshort⟩ := Expr.spellsPath_of_pathParse h
  have hshape : ∀ l ∈ body, l.kind ≠ .eof → Lexeme.Shape l.kind l.text.toList :=
    fun l hl => Expr.shape_of_mem hlexemes (List.mem_append_left _ hl)
  cases hspells with
  | intro hname hword hsteps =>
    simp only [List.forall_mem_cons] at hshape hshort
    refine ⟨?_, hword, hsteps.writable hshape.2 hshort.2⟩
    rw [← hname]
    exact hshape.1 (by rw [hname]; decide)

/-- The text of a path is read as this path. -/
theorem Writable.parse_text {p : Path} (h : p.Writable) : parse p.text = .ok p := by
  obtain ⟨root, steps⟩ := p
  obtain ⟨body, stop, hscan, hspells, hshort⟩ := Expr.scan_steps h.steps (0 + root.toList.length)
  have hlexemes : Expr.lexemesOf (Path.mk root steps).text =
      .ok (⟨.name, root, 0⟩ :: body ++ [stop]) := by
    rw [Expr.lexemesOf_eq_ok_iff, toList_text,
      (Expr.longest_name h.root steps).scan_append, hscan, String.ofList_toList]
    rfl
  refine Expr.pathParse_of_spells hlexemes (List.forall_mem_cons.mpr ⟨?_, hshort⟩)
    (@Expr.SpellsPath.intro ⟨.name, root, 0⟩ body steps rfl h.word hspells)
  intro hnumber
  cases hnumber

/-- A path that has been read can be written, each index being short enough for it, and its text is
read as the same path.  As an expression the text that it was read from is this path as well.  So
paths have the same text only if they have the same root and the same steps. -/
theorem parse_written {text : String} {p : Path} (h : parse text = .ok p) :
    parse p.text = .ok p ∧
    (∀ i, .index i ∈ p.steps → Text.intText? i = some (Text.intText i)) ∧
    Expr.parse text = .ok (.path p) ∧
    ∀ other q, parse other = .ok q →
      (q.text = p.text ↔ q.root = p.root ∧ q.steps = p.steps) := by
  have hwritable := writable_of_parse h
  refine ⟨hwritable.parse_text, fun i hi => (hwritable.steps _ hi).intText?,
    Expr.parse_of_pathParse h, fun other q hq => ⟨fun htext => ?_, ?_⟩⟩
  · have hback := (writable_of_parse hq).parse_text
    rw [htext, hwritable.parse_text] at hback
    cases hback
    exact ⟨rfl, rfl⟩
  · rintro ⟨hroot, hsteps⟩
    rw [Path.text, hroot, hsteps, ← Path.text]

/-- White space, foreign digits and a leading zero are gone from the text, and `true` is a name
behind a point. -/
theorem parse_written_spaced :
    parse " user .items[ \u0660\u0663 ]. true" =
        .ok ⟨"user", [.field "items", .index 3, .field "true"]⟩ ∧
      parse "user.items[3].true" = .ok ⟨"user", [.field "items", .index 3, .field "true"]⟩ ∧
      Expr.parse " user .items[ \u0660\u0663 ]. true" =
        .ok (.path ⟨"user", [.field "items", .index 3, .field "true"]⟩) := by
  have hpath : parse " user .items[ \u0660\u0663 ]. true" =
      .ok ⟨"user", [.field "items", .index 3, .field "true"]⟩ := by decide +kernel
  have htext : text ⟨"user", [.field "items", .index 3, .field "true"]⟩ = "user.items[3].true" := by
    decide +kernel
  obtain ⟨hback, -, hexpr, -⟩ := parse_written hpath
  rw [htext] at hback
  exact ⟨hpath, hback, hexpr⟩

end Path
end Quill
