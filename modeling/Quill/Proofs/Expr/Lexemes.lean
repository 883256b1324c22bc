import Quill.Expr.Lexeme
import Quill.Proofs.Outcome

/-!
What scanning a text for lexemes gives: lexemes that are stretches of the text, none of them
an end mark, and one end mark behind them.  A numeral without a point is a run of digits.
-/

namespace Quill

/-! ## Runs of digits -/

namespace Text

/-- Whether no stretch of digits in a text is longer than `limit`. -/
def DigitRunsWithin (limit : Nat) (cs : List Char) : Prop :=
  ∀ run, run <:+: cs → run.all isDigit = true → run.length ≤ limit

theorem DigitRunsWithin.of_length {limit : Nat} {cs : List Char} (h : cs.length ≤ limit) :
    DigitRunsWithin limit cs :=
  fun _ hrun _ => Nat.le_trans hrun.length_le h

theorem take_run (p : Char → Bool) (cs : List Char) : cs.take (run p cs) = cs.takeWhile p := by
  induction cs with
  | nil => rfl
  | cons c rest ih =>
    by_cases hc : p c = true
    · simpa [run, hc] using ih
    · simp [run, hc]

end Text

/-! ## Lexemes -/

namespace Lexeme

/-- What a text begins with, in the order in which the possibilities are tried. -/
inductive Begins (c : Char) (rest : List Char) : Option Kind → Nat → Prop
  | blank : Text.isBlank c = true → Begins c rest none (Text.run Text.isBlank (c :: rest))
  | number : Text.isDigit c = true → Begins c rest (some .number) (numberLength (c :: rest))
  | string {n : Nat} : Text.literalLength? (c :: rest) = some n → Begins c rest (some .string) n
  | name : Text.isNameStart c = true →
      Begins c rest (some .name) (Text.run Text.isWord (c :: rest))
  | operator {n : Nat} : operatorLength? (c :: rest) = some n → Begins c rest (some .operator) n
  | punct : c ∈ ['(', ')', '[', ']', '.'] → Begins c rest (some .punct) 1

theorem begins_of_leading {c : Char} {rest : List Char} {found : Option Kind} {n : Nat}
    (h : leading? (c :: rest) = some (found, n)) : Begins c rest found n := by
  rw [leading?] at h
  split at h
  · next hblank =>
    cases h
    exact .blank hblank
  split at h
  · next hdigit =>
    cases h
    exact .number hdigit
  split at h
  · next hliteral =>
    cases h
    exact .string hliteral
  split at h
  · next hname =>
    cases h
    exact .name hname
  split at h
  · next hoperator =>
    cases h
    exact .operator hoperator
  split at h
  · next hpunct =>
    cases h
    exact .punct (by simpa using hpunct)
  · cases h

theorem exists_begins_of_leading {cs : List Char} {found : Option Kind} {n : Nat}
    (h : leading? cs = some (found, n)) : ∃ c rest, cs = c :: rest ∧ Begins c rest found n := by
  cases cs with
  | nil => cases h
  | cons c rest => exact ⟨c, rest, rfl, begins_of_leading h⟩

theorem kind_ne_eof_of_leading {cs : List Char} {kind : Kind} {n : Nat}
    (h : leading? cs = some (some kind, n)) : kind ≠ .eof := by
  obtain ⟨c, rest, -, hbegins⟩ := exists_begins_of_leading h
  cases hbegins <;> decide

theorem length_of_leading_number {cs : List Char} {n : Nat}
    (h : leading? cs = some (some .number, n)) : n = numberLength cs := by
  obtain ⟨c, rest, rfl, hbegins⟩ := exists_begins_of_leading h
  cases hbegins
  rfl

/-- A numeral without a point is a run of digits. -/
theorem all_isDigit_of_numeral {cs : List Char} (h : '.' ∉ cs.take (numberLength cs)) :
    (cs.take (numberLength cs)).all Text.isDigit = true := by
  have hwhole : numberLength cs = Text.run Text.isDigit cs := by
    simp only [numberLength] at h ⊢
    split at h
    · next rest hdrop =>
      by_cases hzero : Text.run Text.isDigit rest = 0
      · simp [hzero]
      · refine absurd ?_ h
        have hget : cs[Text.run Text.isDigit cs]? = some '.' := by
          rw [← List.head?_drop, hdrop]
          rfl
        simp only [hzero, if_false]
        rw [List.mem_take_iff_getElem]
        obtain ⟨hlt, hdot⟩ := List.getElem?_eq_some_iff.1 hget
        exact ⟨Text.run Text.isDigit cs, by omega, hdot⟩
    · rfl
  rw [hwhole, Text.take_run]
  exact List.all_takeWhile

structure FoundIn (cs : List Char) (l : Lexeme) : Prop where
  kind_ne_eof : l.kind ≠ .eof
  isInfix : l.text.toList <:+: cs
  digits : l.kind = .number → '.' ∉ l.text.toList → l.text.toList.all Text.isDigit = true

theorem FoundIn.cons {cs : List Char} {l : Lexeme} (h : FoundIn cs l) (c : Char) :
    FoundIn (c :: cs) l :=
  ⟨h.kind_ne_eof, h.isInfix.trans (List.suffix_cons c cs).isInfix, h.digits⟩

/-- Scanning ends with the only end mark.  The induction is on the text, and the characters
that belong to the lexeme before are passed over one by one. -/
theorem scanFrom_eq_ok {skip position : Nat} {cs : List Char} {lexemes : List Lexeme}
    (h : scanFrom skip position cs = .ok lexemes) :
    ∃ (body : List Lexeme) (stop : Lexeme), lexemes = body ++ [stop] ∧ stop.kind = .eof ∧
      ∀ l ∈ body, FoundIn cs l := by
  induction cs generalizing skip position lexemes with
  | nil =>
    cases skip with
    | zero =>
      simp only [scanFrom, Except.ok.injEq] at h
      exact ⟨[], _, h.symm, rfl, by simp⟩
    | succ skip =>
      simp only [scanFrom, Except.ok.injEq] at h
      exact ⟨[], _, h.symm, rfl, by simp⟩
  | cons c rest ih =>
    cases skip with
    | succ skip =>
      obtain ⟨body, stop, heq, hstop, hbody⟩ := ih h
      exact ⟨body, stop, heq, hstop, fun l hl => (hbody l hl).cons c⟩
    | zero =>
      rw [scanFrom] at h
      split at h
      · obtain ⟨body, stop, heq, hstop, hbody⟩ := ih h
        exact ⟨body, stop, heq, hstop, fun l hl => (hbody l hl).cons c⟩
      · next kind n hleading =>
        obtain ⟨others, hothers, h⟩ := Outcome.bind_eq_ok.1 h
        obtain ⟨body, stop, rfl, hstop, hbody⟩ := ih hothers
        cases h
        refine ⟨_ :: body, stop, rfl, hstop, ?_⟩
        intro l hl
        rcases List.mem_cons.1 hl with rfl | hl
        · refine ⟨kind_ne_eof_of_leading hleading, ?_, ?_⟩
          · rw [String.toList_ofList]
            exact (List.take_prefix _ _).isInfix
          · rintro rfl hpoint
            have hlength : n + 1 = numberLength (c :: rest) := length_of_leading_number hleading
            simp only [String.toList_ofList, hlength] at hpoint ⊢
            exact all_isDigit_of_numeral hpoint
        · exact (hbody l hl).cons c
      · cases h

/-- The lexemes of a text end with the only end mark, and the others are found in it. -/
theorem scan_eq_ok {text : String} {lexemes : List Lexeme} (h : scan text = .ok lexemes) :
    ∃ (body : List Lexeme) (stop : Lexeme), lexemes = body ++ [stop] ∧ stop.kind = .eof ∧
      ∀ l ∈ body, FoundIn text.toList l := by
  unfold scan at h
  split at h
  · next hscan =>
    cases h
    exact scanFrom_eq_ok hscan
  · cases h

/-- Whether a lexeme, if it is a numeral without a point, is short enough to be read. -/
def Short (l : Lexeme) : Prop :=
  l.kind = .number → '.' ∉ l.text.toList → l.text.length ≤ Text.numeralLimit

theorem FoundIn.short {cs : List Char} {l : Lexeme} (h : FoundIn cs l)
    (hcs : Text.DigitRunsWithin Text.numeralLimit cs) : l.Short := by
  intro hnumber hpoint
  exact hcs _ h.isInfix (h.digits hnumber hpoint)

end Lexeme
end Quill
