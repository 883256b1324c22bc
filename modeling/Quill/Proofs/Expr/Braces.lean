import Quill.Proofs.Expr.Accepting
import Quill.Proofs.Expr.Shapes

/-!
Where an expression may hold an opening brace.

No lexeme but a string literal holds one, and a literal goes on to the quote that closes it.  An
expression does not begin with a brace, and with no operator but a negation or a minus sign.
-/

namespace Quill
namespace Lexeme

open Text

/-! ## Braces in lexemes -/

theorem mem_take_numberLength {c : Char} {cs : List Char} (h : c ∈ cs.take (numberLength cs)) :
    isDigit c = true ∨ c = '.' := by
  have digits : ∀ {cs : List Char}, c ∈ cs.take (run isDigit cs) → isDigit c = true := by
    intro cs hmem
    rw [take_run] at hmem
    exact of_mem_takeWhile hmem
  rw [numberLength] at h
  dsimp only at h
  split at h
  · next rest hdrop =>
    split at h
    · exact .inl (digits h)
    · rw [Nat.add_assoc, List.take_add, hdrop, Nat.add_comm 1, List.take_succ_cons] at h
      rcases List.mem_append.mp h with hmem | hmem
      · exact .inl (digits hmem)
      · rcases List.mem_cons.mp hmem with rfl | hmem
        · exact .inr rfl
        · exact .inl (digits hmem)
  · exact .inl (digits h)

theorem not_mem_operator {cs : List Char} {n : Nat} (h : operatorLength? cs = some n) :
    '{' ∉ cs.take n := by
  have hall : ∀ word ∈ operators, '{' ∉ word := by decide
  exact hall _ (take_mem_operators h)

/-- A lexeme that holds an opening brace is a string literal. -/
theorem literalLength_of_brace {cs : List Char} {kind : Kind} {n : Nat}
    (h : leading? cs = some (some kind, n)) (hmem : '{' ∈ cs.take n) :
    kind = .string ∧ literalLength? cs = some n := by
  obtain ⟨c, rest, rfl, hbegins⟩ := exists_begins_of_leading h
  cases hbegins with
  | number _ =>
    rcases mem_take_numberLength hmem with hdigit | hpoint
    · exact absurd hdigit (by decide)
    · exact absurd hpoint (by decide)
  | string hliteral => exact ⟨rfl, hliteral⟩
  | name _ =>
    rw [take_run] at hmem
    exact absurd (of_mem_takeWhile hmem) (by decide)
  | operator hoperator => exact absurd hmem (not_mem_operator hoperator)
  | punct hpunct =>
    obtain rfl : '{' = c := by simpa using hmem
    exact absurd hpunct (by decide)

/-- A string literal ends with a quote. -/
theorem getLast_of_literalLength {cs : List Char} {n : Nat} (h : literalLength? cs = some n) :
    ∃ quote ∈ ['"', '\''], (cs.take n).getLast? = some quote := by
  obtain ⟨quote, body, rest, hquote, -, rfl, rfl⟩ := literalLength_eq_some_iff.mp h
  refine ⟨quote, by simpa using hquote, ?_⟩
  have hlit : quote :: (body ++ quote :: rest) = (quote :: body ++ [quote]) ++ rest := by simp
  rw [hlit, List.take_left' (by simp), List.getLast?_concat]

end Lexeme

namespace Expr

open Text

/-! ## Braces in expressions -/

/-- A brace in an expression stands in a string literal, which holds what follows the brace up to a
quote. -/
theorem exists_literal_of_brace {text : List Char} {e : Expr}
    (h : parse (String.ofList text) = .ok e) {place : Nat} (hplace : text[place]? = some '{') :
    ∃ lexemes, lexemesOf (String.ofList text) = .ok lexemes ∧ ∃ l ∈ lexemes, l.kind = .string ∧
      ∃ back, back <:+ l.text.toList ∧ back <+: text.drop place ∧
        ∃ quote ∈ ['"', '\''], quote ∈ back := by
  obtain ⟨lexemes, hlexemes, -⟩ := Outcome.bind_eq_ok.mp h
  have hscan : Lexeme.scanFrom 0 0 text = .ok lexemes := by
    have hscan := lexemesOf_eq_ok_iff.mp hlexemes
    rwa [String.toList_ofList] at hscan
  obtain ⟨l, hl, hle, hbrace⟩ := Lexeme.exists_mem_scanFrom hscan (Nat.zero_le place) hplace rfl
  obtain ⟨start, hposition, hstands⟩ := Lexeme.standsAt_of_mem_scanFrom hscan hl
  obtain rfl : l.position = start := by omega
  rw [Nat.zero_add] at hle hbrace
  refine ⟨lexemes, hlexemes, l, hl, ?_⟩
  have hmem := List.mem_of_getElem? hbrace
  have hlt : place - l.position < l.text.toList.length := (List.getElem?_eq_some_iff.mp hbrace).1
  obtain ⟨rest, hrest⟩ := hstands.isPrefix
  cases hstands with
  | stop _ htext _ =>
    rw [htext] at hmem
    cases hmem
  | @word n hleading htext =>
    rw [htext] at hmem
    obtain ⟨hkind, hliteral⟩ := Lexeme.literalLength_of_brace hleading hmem
    obtain ⟨quote, hquote, hlast⟩ := Lexeme.getLast_of_literalLength hliteral
    rw [← htext] at hlast
    refine ⟨hkind, l.text.toList.drop (place - l.position), List.drop_suffix _ _, ?_, quote, hquote,
      ?_⟩
    · have hdrop : text.drop place = (text.drop l.position).drop (place - l.position) := by
        rw [List.drop_drop, show l.position + (place - l.position) = place by omega]
      rw [hdrop, ← hrest, List.drop_append_of_le_length (Nat.le_of_lt hlt)]
      exact List.prefix_append _ _
    · have hback : (l.text.toList.drop (place - l.position)).getLast? = some quote := by
        rw [List.getLast?_drop, if_neg (by omega), hlast]
      exact List.mem_of_getLast? hback

/-! ## The beginning of an expression -/

/-- No operand begins with an operator that is neither a negation nor a minus sign. -/
theorem parseBinary_ne_ok {text : String} {c : Cursor} (hkind : c.current.kind = .operator)
    (hnot : c.current.text ≠ "!") (hminus : c.current.text ≠ "-") (fuel level : Nat)
    (r : Expr × Cursor) : parseBinary text fuel level c ≠ .ok r := by
  induction fuel generalizing level r with
  | zero => exact fun h => nomatch h
  | succ fuel ih =>
    intro h
    rw [parseBinary] at h
    split at h
    · cases fuel with
      | zero => cases h
      | succ fuel =>
        rw [parseUnary, if_neg (by simp [Cursor.isAt, hnot])] at h
        cases fuel with
        | zero => cases h
        | succ fuel => simp [parsePrimary, Cursor.isAt, hkind, hminus, problemAt] at h
    · obtain ⟨⟨left, behind⟩, hleft, -⟩ := Outcome.bind_eq_ok.mp h
      exact ih (level + 1) (left, behind) hleft

/-- No expression begins with a brace or with the sign of a remainder. -/
theorem parse_ne_ok_of_opening {c : Char} (hc : c ∈ ['{', '%']) (more : List Char) (e : Expr) :
    parse (String.ofList (c :: more)) ≠ .ok e := by
  intro h
  obtain ⟨lexemes, hlexemes, h⟩ := Outcome.bind_eq_ok.mp h
  rw [lexemesOf_eq_ok_iff, String.toList_ofList] at hlexemes
  rcases List.mem_pair.mp hc with rfl | rfl
  · cases hlexemes
  · have hleading : Lexeme.leading? ('%' :: more) = some (some .operator, 0 + 1) := rfl
    rw [Lexeme.scanFrom, hleading] at hlexemes
    obtain ⟨others, -, heq⟩ := Outcome.bind_eq_ok.mp hlexemes
    cases heq
    rw [parseLexemes] at h
    dsimp only at h
    rw [if_neg (by simp [Cursor.current])] at h
    obtain ⟨r, hr, -⟩ := Outcome.bind_eq_ok.mp h
    have htext : String.ofList (('%' :: more).take (0 + 1)) = "%" := rfl
    refine parseBinary_ne_ok rfl ?_ ?_ _ _ _ hr
    · show String.ofList (('%' :: more).take (0 + 1)) ≠ "!"
      rw [htext]
      decide
    · show String.ofList (('%' :: more).take (0 + 1)) ≠ "-"
      rw [htext]
      decide

end Expr
end Quill
