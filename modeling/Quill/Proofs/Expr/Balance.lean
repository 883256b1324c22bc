import Quill.Proofs.Expr.Reading
import Quill.Proofs.Expr.Spacing

/-!
Parentheses in expressions.

The parser never stops inside of parentheses: the lexemes that it reads as one expression close what
they open, and they close nothing else.  This holds of everything that is accepted, whatever
numerals stand in it.
-/

namespace Quill

def Lexeme.depthAfter (depth : Nat) (l : Lexeme) : Nat :=
  if l.Is .punct "(" then depth + 1 else if l.Is .punct ")" then depth - 1 else depth

namespace Expr

/-! ## Lexemes that close what they open -/

def Balanced (ls : List Lexeme) : Prop := ∀ depth, ls.foldl Lexeme.depthAfter depth = depth

theorem Balanced.append {front back : List Lexeme} (hfront : Balanced front)
    (hback : Balanced back) : Balanced (front ++ back) := fun depth => by
  rw [List.foldl_append, hfront, hback]

theorem balanced_singleton {l : Lexeme} (hopening : ¬ l.Is .punct "(")
    (hclosing : ¬ l.Is .punct ")") : Balanced [l] := fun depth => by
  show l.depthAfter depth = depth
  rw [Lexeme.depthAfter, if_neg hopening, if_neg hclosing]

theorem balanced_of_kind {l : Lexeme} (h : l.kind ≠ .punct) : Balanced [l] :=
  balanced_singleton (fun hl => h hl.1) fun hl => h hl.1

theorem balanced_of_text {l : Lexeme} {text : String} (h : l.Is .punct text)
    (hopening : text ≠ "(") (hclosing : text ≠ ")") : Balanced [l] :=
  balanced_singleton (fun hl => hopening (h.2.symm.trans hl.2)) fun hl =>
    hclosing (h.2.symm.trans hl.2)

theorem Balanced.group {opening closing : Lexeme} {inner : List Lexeme} (h : Balanced inner)
    (hopening : opening.Is .punct "(") (hclosing : closing.Is .punct ")") :
    Balanced (opening :: (inner ++ [closing])) := fun depth => by
  have hclose : ¬ closing.Is .punct "(" := fun hl => absurd (hclosing.2.symm.trans hl.2) (by decide)
  rw [List.foldl_cons, List.foldl_append, h, Lexeme.depthAfter, if_pos hopening]
  show closing.depthAfter (depth + 1) = depth
  rw [Lexeme.depthAfter, if_neg hclose, if_pos hclosing, Nat.add_sub_cancel]

/-! ## What the parser moves over -/

/-- Whether a list of lexemes goes on as another one behind lexemes that are balanced. -/
def Crosses (before behind : List Lexeme) : Prop := ∃ ls, before = ls ++ behind ∧ Balanced ls

theorem crosses_refl (ls : List Lexeme) : Crosses ls ls := ⟨[], rfl, fun _ => rfl⟩

theorem Crosses.trans {a b c : List Lexeme} (hab : Crosses a b) (hbc : Crosses b c) :
    Crosses a c := by
  obtain ⟨front, rfl, hfront⟩ := hab
  obtain ⟨back, rfl, hback⟩ := hbc
  exact ⟨front ++ back, (List.append_assoc front back c).symm, hfront.append hback⟩

theorem crosses_cons {l : Lexeme} (h : Balanced [l]) (rest : List Lexeme) :
    Crosses (l :: rest) rest := ⟨[l], rfl, h⟩

theorem crosses_advance {c : Cursor} (h : c.current.kind ≠ .punct) :
    Crosses c.rest c.advance.rest := by
  obtain ⟨rest, depth⟩ := c
  cases rest with
  | nil => exact crosses_refl []
  | cons l rest =>
    by_cases heof : l.kind = .eof
    · simp only [Cursor.advance, if_pos heof]
      exact crosses_refl _
    · rw [Cursor.advance_cons heof]
      exact crosses_cons (balanced_of_kind h) rest

theorem parseSteps_crosses {text : String} {before after : List Segment} {ls rest : List Lexeme}
    (h : parseSteps text before ls = .ok (after, rest)) : Crosses ls rest := by
  fun_induction parseSteps text before ls with
  | case1 before =>
    cases h
    exact crosses_refl []
  | case3 before l hpoint name tail hname ih =>
    have hfield : Crosses (l :: name :: tail) tail :=
      (crosses_cons (balanced_of_text hpoint (by decide) (by decide)) _).trans
        (crosses_cons (balanced_of_kind (by rw [hname]; decide)) tail)
    exact hfield.trans (ih h)
  | case9 before l _ hopening number hnumber hpoint closing tail hclosing ih =>
    have hnumber : number.kind = .number := by simpa using hnumber
    obtain ⟨i, -, h⟩ := Outcome.bind_eq_ok.mp h
    have hindex : Crosses (l :: number :: closing :: tail) tail :=
      ((crosses_cons (balanced_of_text hopening (by decide) (by decide)) _).trans
        (crosses_cons (balanced_of_kind (by rw [hnumber]; decide)) _)).trans
        (crosses_cons (balanced_of_text hclosing (by decide) (by decide)) tail)
    exact hindex.trans (ih i h)
  | case11 before l tail _ _ =>
    cases h
    exact crosses_refl _
  | _ => cases h

structure CrossesAt (text : String) (fuel : Nat) : Prop where
  binary : ∀ {level c e c'}, parseBinary text fuel level c = .ok (e, c') → Crosses c.rest c'.rest
  chain : ∀ {level left c e c'}, parseChain text fuel level left c = .ok (e, c') →
    Crosses c.rest c'.rest
  unary : ∀ {c e c'}, parseUnary text fuel c = .ok (e, c') → Crosses c.rest c'.rest
  primary : ∀ {c e c'}, parsePrimary text fuel c = .ok (e, c') → Crosses c.rest c'.rest

section Steps

variable {text : String} {fuel level : Nat} {left e : Expr} {c c' : Cursor}

theorem parseBinary_crosses (ih : CrossesAt text fuel)
    (h : parseBinary text (fuel + 1) level c = .ok (e, c')) : Crosses c.rest c'.rest := by
  rw [parseBinary] at h
  split at h
  · exact ih.unary h
  · obtain ⟨⟨first, middle⟩, hfirst, hrest⟩ := Outcome.bind_eq_ok.mp h
    exact (ih.binary hfirst).trans (ih.chain hrest)

theorem parseChain_crosses (ih : CrossesAt text fuel)
    (h : parseChain text (fuel + 1) level left c = .ok (e, c')) : Crosses c.rest c'.rest := by
  rw [parseChain] at h
  split at h
  · cases h
    exact crosses_refl _
  · next op hop =>
    obtain ⟨⟨right, middle⟩, hright, hrest⟩ := Outcome.bind_eq_ok.mp h
    have hsign : c.current.kind ≠ .punct := by
      intro hkind
      rw [operatorAt?, hkind] at hop
      cases hop
    exact ((crosses_advance hsign).trans (ih.binary hright)).trans (ih.chain hrest)

theorem rest_of_enter {l : Lexeme} {inner : Cursor} (h : enter text l c = .ok inner) :
    inner.rest = c.rest := by
  rw [enter] at h
  split at h
  · cases h
  · cases h
    rfl

theorem parseUnary_crosses (ih : CrossesAt text fuel)
    (h : parseUnary text (fuel + 1) c = .ok (e, c')) : Crosses c.rest c'.rest := by
  rw [parseUnary] at h
  split at h
  · next hat =>
    obtain ⟨inner, hinner, h⟩ := Outcome.bind_eq_ok.mp h
    obtain ⟨⟨operand, behind⟩, hoperand, h⟩ := Outcome.bind_eq_ok.mp h
    cases h
    have hsign : c.current.kind ≠ .punct := by
      intro hkind
      rw [Cursor.isAt, hkind] at hat
      cases hat
    have hmove := ih.unary hoperand
    rw [rest_of_enter hinner] at hmove
    exact (crosses_advance hsign).trans hmove
  · exact ih.primary h

theorem parsePathAt_crosses {path : Path} (h : parsePathAt text c = .ok (path, c')) :
    Crosses c.rest c'.rest := by
  rw [parsePathAt] at h
  split at h
  · next hname =>
    obtain ⟨⟨steps, rest⟩, hsteps, h⟩ := Outcome.bind_eq_ok.mp h
    cases h
    exact (crosses_advance (by rw [hname]; decide)).trans (parseSteps_crosses hsteps)
  · cases h

/-- What stands between parentheses is balanced together with them. -/
theorem parseGroup_crosses (ih : CrossesAt text fuel) (hopening : c.isAt .punct "(" = true)
    (h : (do
      let inner ← enter text c.current c.advance
      let (e, c) ← parseBinary text fuel 0 inner
      if c.isAt .punct ")" then return (e, leave c.advance)
      else problemAt text .closingParenthesisMissing c.current) = .ok (e, c')) :
    Crosses c.rest c'.rest := by
  obtain ⟨inner, hinner, h⟩ := Outcome.bind_eq_ok.mp h
  obtain ⟨⟨operand, ⟨behind, depth'⟩⟩, hoperand, h⟩ := Outcome.bind_eq_ok.mp h
  dsimp only at h
  split at h
  · next hclosing =>
    cases h
    obtain ⟨rest, depth⟩ := c
    cases rest with
    | nil =>
      rw [Cursor.isAt_nil (by decide)] at hopening
      cases hopening
    | cons opening rest =>
      cases behind with
      | nil =>
        rw [Cursor.isAt_nil (by decide)] at hclosing
        cases hclosing
      | cons closing behind =>
        have hopening := Cursor.isAt_cons.mp hopening
        have hclosing := Cursor.isAt_cons.mp hclosing
        obtain ⟨ls, hls, hbalanced⟩ := ih.binary hoperand
        rw [rest_of_enter hinner, Cursor.advance_cons (hopening.kind_ne_eof (by decide))] at hls
        have hls : rest = ls ++ closing :: behind := hls
        rw [Cursor.advance_cons (hclosing.kind_ne_eof (by decide))]
        refine ⟨opening :: (ls ++ [closing]), ?_, hbalanced.group hopening hclosing⟩
        show opening :: rest = opening :: (ls ++ [closing]) ++ behind
        rw [hls]
        simp
  · cases h

theorem crosses_negative (hat : c.isAt .operator "-" = true)
    (hnext : (c.next.kind == .number) = true) : Crosses c.rest c.advance.advance.rest := by
  obtain ⟨rest, depth⟩ := c
  cases rest with
  | nil =>
    rw [Cursor.isAt_nil (by decide)] at hat
    cases hat
  | cons minus rest =>
    have hminus := Cursor.isAt_cons.mp hat
    have hsign : Crosses (minus :: rest) (Cursor.mk (minus :: rest) depth).advance.rest :=
      crosses_advance (c := ⟨minus :: rest, depth⟩) (by
        rw [Cursor.current_cons, hminus.1]
        decide)
    refine hsign.trans (crosses_advance ?_)
    rw [Cursor.advance_cons (hminus.kind_ne_eof (by decide))]
    cases rest with
    | nil => exact fun heof => nomatch heof
    | cons m rest =>
      rw [Cursor.next_cons_cons] at hnext
      rw [Cursor.current_cons, beq_iff_eq.mp hnext]
      decide

theorem parsePrimary_crosses (ih : CrossesAt text fuel)
    (h : parsePrimary text (fuel + 1) c = .ok (e, c')) : Crosses c.rest c'.rest := by
  dsimp only [parsePrimary] at h
  split at h
  · next hnumber =>
    obtain ⟨n, -, h⟩ := Outcome.bind_eq_ok.mp h
    cases h
    exact crosses_advance (by rw [hnumber]; decide)
  split at h
  · next hnegative =>
    obtain ⟨hat, hnext⟩ := Bool.and_eq_true_iff.mp hnegative
    obtain ⟨n, -, h⟩ := Outcome.bind_eq_ok.mp h
    cases h
    exact crosses_negative hat hnext
  split at h
  · next hstring =>
    cases h
    exact crosses_advance (by rw [hstring]; decide)
  split at h
  · next hname =>
    split at h
    · cases h
      exact crosses_advance (by rw [hname]; decide)
    · obtain ⟨⟨path, behind⟩, hpath, h⟩ := Outcome.bind_eq_ok.mp h
      cases h
      exact parsePathAt_crosses hpath
  split at h
  · next hopening => exact parseGroup_crosses ih hopening h
  split at h
  · cases h
  · cases h

end Steps

theorem crossesAt (text : String) (fuel : Nat) : CrossesAt text fuel := by
  induction fuel with
  | zero =>
    refine ⟨fun h => ?_, fun h => ?_, fun h => ?_, fun h => ?_⟩
    · cases h
    · cases h
    · cases h
    · cases h
  | succ fuel ih =>
    exact ⟨parseBinary_crosses ih, parseChain_crosses ih, parseUnary_crosses ih,
      parsePrimary_crosses ih⟩

theorem eq_nil_of_eof {cs : List Char} {front behind : List Lexeme} {stop : Lexeme}
    (h : Lexeme.scanFrom 0 0 cs = .ok (front ++ stop :: behind)) (hstop : stop.kind = .eof) :
    behind = [] := by
  rcases List.eq_nil_or_concat behind with rfl | ⟨middle, last, rfl⟩
  · rfl
  · obtain ⟨body, other, hls, -, hbody⟩ := Lexeme.scanFrom_eq_ok h
    have hsplit : body ++ [other] = (front ++ stop :: middle) ++ [last] := by simpa using hls.symm
    obtain ⟨rfl, -⟩ := List.append_inj' hsplit rfl
    exact absurd hstop (hbody stop (by simp)).kind_ne_eof

/-- The lexemes of a text that spells an expression are balanced. -/
theorem balanced_of_parse {text : String} {e : Expr} (h : parse text = .ok e) :
    ∃ lexemes, Lexeme.scanFrom 0 0 text.toList = .ok lexemes ∧ Balanced lexemes := by
  obtain ⟨lexemes, hlexemes, h⟩ := Outcome.bind_eq_ok.mp h
  rw [lexemesOf_eq_ok_iff] at hlexemes
  refine ⟨lexemes, hlexemes, ?_⟩
  dsimp only [parseLexemes] at h
  split at h
  · cases h
  · obtain ⟨⟨e', c⟩, hbinary, h⟩ := Outcome.bind_eq_ok.mp h
    dsimp only at h
    split at h
    · next hend =>
      obtain ⟨ls, hls, hbalanced⟩ := (crossesAt text _).binary hbinary
      have hls : lexemes = ls ++ c.rest := hls
      obtain ⟨rest, depth⟩ := c
      cases rest with
      | nil =>
        rw [hls, List.append_nil]
        exact hbalanced
      | cons stop more =>
        have hstop : stop.kind = .eof := hend
        rw [hls] at hlexemes
        rw [hls, eq_nil_of_eof hlexemes hstop]
        exact hbalanced.append (balanced_of_kind (by rw [hstop]; decide))
    · cases h

end Expr
end Quill
