import Quill.Proofs.Expr.Lexemes
import Quill.Proofs.Expr.SameWords
import Quill.Proofs.Text.Literals
import Quill.Proofs.Text.Words

/-!
White space around an expression.

White space at either end of a text changes nothing but the positions of the lexemes: no lexeme
that begins before white space reaches beyond the place where the white space begins.  A text that
spells an expression spells it when it is trimmed as well.
-/

namespace Quill

open Text

/-! ## Runs before white space -/

namespace Text

/-- No white space is a digit. -/
theorem isDigit_of_isBlank {c : Char} (h : isBlank c = true) : isDigit c = false :=
  eq_false_of_isBlank (by decide +kernel) h

variable {gap : List Char}

/-- White space does not prolong a run of characters of another kind. -/
theorem run_append_blanks (hgap : ∀ c ∈ gap, isBlank c = true) {p : Char → Bool}
    (hp : ∀ c, isBlank c = true → p c = false) (cs : List Char) : run p (cs ++ gap) = run p cs := by
  induction cs with
  | nil =>
    cases gap with
    | nil => rfl
    | cons c rest => simp [run, hp c (hgap c List.mem_cons_self)]
  | cons c rest ih =>
    simp only [run, List.cons_append, List.takeWhile_cons] at ih ⊢
    split
    · simp only [List.length_cons, ih]
    · rfl

/-- White space at the end of a text does not belong to white space before the last character. -/
theorem run_isBlank_append {cs : List Char} (hne : cs ≠ []) (hend : Flush cs.reverse) :
    run isBlank (cs ++ gap) = run isBlank cs := by
  have hlast : isBlank (cs.getLast hne) = false := by
    refine hend _ ?_
    rw [List.head?_reverse, List.getLast?_eq_getLast_of_ne_nil hne]
  have hshort : (cs.takeWhile isBlank).length ≠ cs.length := by
    intro hlength
    have hall := (List.takeWhile_prefix isBlank).eq_of_length hlength
    have hmem : cs.getLast hne ∈ cs.takeWhile isBlank := hall.symm ▸ List.getLast_mem hne
    rw [of_mem_takeWhile hmem] at hlast
    cases hlast
  rw [run, run, List.takeWhile_append, if_neg hshort]

theorem run_le_length (p : Char → Bool) (cs : List Char) : run p cs ≤ cs.length :=
  (List.takeWhile_prefix p).length_le

/-! ## Literals before white space -/

theorem literalLength_append (hgap : ∀ c ∈ gap, isBlank c = true) {cs : List Char} (hne : cs ≠ []) :
    literalLength? (cs ++ gap) = literalLength? cs := by
  obtain ⟨c, rest, rfl⟩ := List.exists_cons_of_ne_nil hne
  rw [List.cons_append, literalLength?, literalLength?]
  split
  · next hc =>
    rw [closingLength_append fun hmem => ?_]
    have hblank := hgap c hmem
    rcases Bool.or_eq_true_iff.mp hc with hc | hc
    · rw [beq_iff_eq.mp hc] at hblank
      exact absurd hblank (by decide)
    · rw [beq_iff_eq.mp hc] at hblank
      exact absurd hblank (by decide)
  · rfl

end Text

namespace Lexeme

variable {gap : List Char}

theorem numberLength_append (hgap : ∀ c ∈ gap, isBlank c = true) (cs : List Char) :
    numberLength (cs ++ gap) = numberLength cs := by
  have hdigits := run_append_blanks hgap (fun c => isDigit_of_isBlank)
  have hdrop : (cs ++ gap).drop (run isDigit cs) = cs.drop (run isDigit cs) ++ gap :=
    List.drop_append_of_le_length (run_le_length _ _)
  rw [numberLength, numberLength, hdigits, hdrop]
  cases cs.drop (run isDigit cs) with
  | nil =>
    cases gap with
    | nil => rfl
    | cons c rest =>
      have hc : c ≠ '.' := by
        rintro rfl
        exact absurd (hgap '.' List.mem_cons_self) (by decide)
      simp [hc]
  | cons c rest =>
    have hrest := run_append_blanks hgap (fun c => isDigit_of_isBlank) rest
    by_cases hc : c = '.'
    · subst hc
      simp only [List.cons_append, hrest]
    · simp [hc]

/-- At most two characters of an operator count. -/
theorem operatorLength_cons (c : Char) (rest : List Char) :
    operatorLength? (c :: rest) =
      if (c = '&' ∧ rest.head? = some '&') ∨ (c = '|' ∧ rest.head? = some '|') ∨
          (c ∈ ['=', '!', '<', '>'] ∧ rest.head? = some '=') then some 2
      else if ['-', '+', '*', '/', '%', '<', '>', '!'].contains c then some 1 else none := by
  cases rest with
  | nil => rw [operatorLength?] <;> simp
  | cons d rest =>
    unfold operatorLength?
    split
    case h_7 c' tail hand hor heq hne hle hge hcons =>
      simp only [List.cons.injEq] at hcons
      obtain ⟨rfl, rfl⟩ := hcons
      refine (if_neg ?_).symm
      simp only [List.head?_cons, Option.some.injEq, List.mem_cons, List.not_mem_nil, or_false]
      rintro (⟨rfl, rfl⟩ | ⟨rfl, rfl⟩ | ⟨rfl | rfl | rfl | rfl, rfl⟩)
      · exact hand rest rfl rfl
      · exact hor rest rfl rfl
      · exact heq rest rfl rfl
      · exact hne rest rfl rfl
      · exact hle rest rfl rfl
      · exact hge rest rfl rfl
    all_goals simp_all

theorem operatorLength_append (hgap : ∀ c ∈ gap, isBlank c = true) {cs : List Char}
    (hne : cs ≠ []) : operatorLength? (cs ++ gap) = operatorLength? cs := by
  match cs with
  | [] => exact absurd rfl hne
  | [c] =>
    have hplain : ∀ d, isBlank d = false → gap.head? ≠ some d := by
      intro d hd hhead
      rw [hgap d (List.mem_of_head? hhead)] at hd
      cases hd
    rw [List.singleton_append, operatorLength_cons, operatorLength_cons]
    simp [hplain '&' rfl, hplain '|' rfl, hplain '=' rfl]
  | c :: d :: rest =>
    rw [List.cons_append, operatorLength_cons, operatorLength_cons]
    rfl

theorem leading_append (hgap : ∀ c ∈ gap, isBlank c = true) {cs : List Char} (hne : cs ≠ [])
    (hend : Flush cs.reverse) : leading? (cs ++ gap) = leading? cs := by
  have hblanks := @run_isBlank_append gap cs hne hend
  have hword := run_append_blanks hgap (fun c => isWord_of_isBlank) cs
  have hnumber := numberLength_append hgap cs
  have hliteral := literalLength_append hgap hne
  have hoperator := operatorLength_append hgap hne
  obtain ⟨c, rest, rfl⟩ := List.exists_cons_of_ne_nil hne
  simp only [List.cons_append] at hblanks hword hnumber hliteral hoperator ⊢
  simp only [leading?, hblanks, hword, hnumber, hliteral, hoperator]

/-! ## The length of a lexeme -/

theorem literalLength_le {cs : List Char} {n : Nat} (h : literalLength? cs = some n) :
    n ≤ cs.length := by
  obtain ⟨quote, body, rest, -, -, rfl, rfl⟩ := literalLength_eq_some_iff.mp h
  simp

theorem numberLength_le (cs : List Char) : numberLength cs ≤ cs.length := by
  have hwhole := run_le_length isDigit cs
  rw [numberLength]
  dsimp only
  split
  · next rest hrest =>
    have hfraction := run_le_length isDigit rest
    have hlength := congrArg List.length hrest
    simp only [List.length_drop, List.length_cons] at hlength
    split
    · exact hwhole
    · omega
  · exact hwhole

theorem operatorLength_le {cs : List Char} {n : Nat} (h : operatorLength? cs = some n) :
    n ≤ cs.length := by
  match cs with
  | [] => cases h
  | [c] =>
    rw [operatorLength_cons, if_neg (by simp)] at h
    split at h
    · cases h
      exact Nat.le_refl 1
    · cases h
  | c :: d :: rest =>
    have hlength : 2 ≤ (c :: d :: rest).length := by simp
    rw [operatorLength_cons] at h
    split at h
    · cases h
      exact hlength
    · split at h
      · cases h
        exact Nat.le_of_succ_le hlength
      · cases h

/-- What a text begins with lies within it. -/
theorem leading_le {cs : List Char} {kind : Option Kind} {n : Nat}
    (h : leading? cs = some (kind, n)) : n ≤ cs.length := by
  obtain ⟨c, rest, rfl, hbegins⟩ := exists_begins_of_leading h
  cases hbegins with
  | blank _ => exact run_le_length isBlank _
  | number _ => exact numberLength_le _
  | string hliteral => exact literalLength_le hliteral
  | name _ => exact run_le_length isWord _
  | operator hoperator => exact operatorLength_le hoperator
  | punct _ => exact Nat.succ_le_succ (Nat.zero_le _)

/-! ## Scanning -/

theorem scanFrom_length (front rest : List Char) (position : Nat) :
    scanFrom front.length position (front ++ rest) = scanFrom 0 (position + front.length) rest := by
  induction front generalizing position with
  | nil => rfl
  | cons c front ih =>
    rw [List.cons_append, List.length_cons, scanFrom, ih, Nat.add_assoc, Nat.add_comm 1]

theorem scanFrom_skip {n : Nat} {rest : List Char} (h : n ≤ rest.length) (position : Nat) :
    scanFrom n position rest = scanFrom 0 (position + n) (rest.drop n) := by
  have hlength : (rest.take n).length = n := by
    rw [List.length_take]
    omega
  have hskip := scanFrom_length (rest.take n) (rest.drop n) position
  rwa [hlength, List.take_append_drop] at hskip

/-- White space before a text is passed over. -/
theorem scanFrom_blanks_append {lead rest : List Char} (hlead : ∀ c ∈ lead, isBlank c = true)
    (hrest : Flush rest) (position : Nat) :
    scanFrom 0 position (lead ++ rest) = scanFrom 0 (position + lead.length) rest := by
  cases lead with
  | nil => rfl
  | cons c lead =>
    have hrun : run isBlank (c :: (lead ++ rest)) = lead.length + 1 := by
      have htake : ((c :: lead) ++ rest).takeWhile isBlank = c :: lead :=
        takeWhile_append_of_all hlead hrest
      rw [run, ← List.cons_append, htake, List.length_cons]
    have hleading : leading? (c :: (lead ++ rest)) = some (none, lead.length + 1) := by
      rw [leading?, if_pos (hlead c List.mem_cons_self), hrun]
    rw [List.cons_append, scanFrom, hleading]
    dsimp only
    rw [scanFrom_length, List.length_cons, Nat.add_assoc, Nat.add_comm 1]

/-- White space alone holds no lexeme. -/
theorem scanFrom_blanks (hgap : ∀ c ∈ gap, isBlank c = true) (skip position : Nat) :
    ∃ stop, scanFrom skip position gap = .ok [⟨.eof, "", stop⟩] := by
  induction gap generalizing skip position with
  | nil =>
    refine ⟨position, ?_⟩
    rw [scanFrom]
  | cons c rest ih =>
    have hrest : ∀ d ∈ rest, isBlank d = true := fun d hd => hgap d (List.mem_cons_of_mem c hd)
    cases skip with
    | succ skip => exact ih hrest skip (position + 1)
    | zero =>
      have hc := hgap c List.mem_cons_self
      have hleading : leading? (c :: rest) = some (none, run isBlank rest + 1) := by
        rw [leading?, if_pos hc, run, List.takeWhile_cons_of_pos hc]
        rfl
      rw [scanFrom, hleading]
      exact ih hrest _ _

/-- Where a text is scanned and whether white space follows makes no difference to its words. -/
theorem scanFrom_append_blanks (hgap : ∀ c ∈ gap, isBlank c = true) {cs : List Char}
    (hend : Flush cs.reverse) {skip position : Nat} {ls : List Lexeme}
    (h : scanFrom skip position (cs ++ gap) = .ok ls) (position' : Nat) :
    ∃ ls', scanFrom skip position' cs = .ok ls' ∧ List.Forall₂ SameWord ls ls' := by
  induction cs generalizing skip position position' ls with
  | nil =>
    obtain ⟨stop, hstop⟩ := scanFrom_blanks hgap skip position
    rw [List.nil_append, hstop] at h
    cases h
    refine ⟨[⟨.eof, "", position'⟩], ?_, .cons ⟨rfl, rfl⟩ .nil⟩
    rw [scanFrom]
  | cons c rest ih =>
    have hrest : Flush rest.reverse := by
      intro d hd
      refine hend d ?_
      rw [List.reverse_cons, List.head?_append, hd]
      rfl
    cases skip with
    | succ skip => exact ih hrest h (position' + 1)
    | zero =>
      have hleading : leading? (c :: (rest ++ gap)) = leading? (c :: rest) :=
        leading_append hgap (List.cons_ne_nil c rest) hend
      rw [List.cons_append, scanFrom, hleading] at h
      rw [scanFrom]
      split at h
      · next n _ => exact ih hrest h (position' + 1)
      · next kind n hmatch =>
        obtain ⟨others, hothers, heq⟩ := Outcome.bind_eq_ok.mp h
        cases heq
        obtain ⟨others', hothers', hwords⟩ := ih hrest hothers (position' + 1)
        have htake : ((c :: rest) ++ gap).take (n + 1) = (c :: rest).take (n + 1) :=
          List.take_append_of_le_length (leading_le hmatch)
        refine ⟨⟨kind, String.ofList ((c :: rest).take (n + 1)), position'⟩ :: others', ?_,
          .cons ⟨rfl, congrArg String.ofList htake⟩ hwords⟩
        rw [hothers']
        rfl
      · cases h

end Lexeme

theorem Expr.lexemesOf_eq_ok_iff {text : String} {lexemes : List Lexeme} :
    Expr.lexemesOf text = .ok lexemes ↔ Lexeme.scanFrom 0 0 text.toList = .ok lexemes := by
  rw [Expr.lexemesOf, Lexeme.scan]
  cases Lexeme.scanFrom 0 0 text.toList <;> simp

/-- A text that spells an expression spells it when it is trimmed as well. -/
theorem Expr.parse_trimmed {text : String} {e : Expr} (h : Expr.parse text = .ok e) :
    Expr.parse (trimmed text) = .ok e := by
  obtain ⟨lead, trail, htext, hlead, htrail, hflush⟩ := exists_trim text.toList
  obtain ⟨lexemes, hlexemes, he⟩ := Outcome.bind_eq_ok.mp h
  have hscan := Expr.lexemesOf_eq_ok_iff.mp hlexemes
  rw [htext, Lexeme.scanFrom_blanks_append hlead hflush] at hscan
  obtain ⟨lexemes', hscan', hwords⟩ :=
    Lexeme.scanFrom_append_blanks htrail (flush_reverse_trim text.toList) hscan 0
  have hlexemes' : Expr.lexemesOf (trimmed text) = .ok lexemes' := by
    rw [Expr.lexemesOf_eq_ok_iff, trimmed, String.toList_ofList]
    exact hscan'
  rw [Expr.parse, hlexemes']
  exact Expr.parseLexemes_of_sameWords hwords he

end Quill
