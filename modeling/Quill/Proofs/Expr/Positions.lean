import Quill.Proofs.Expr.Places
import Quill.Proofs.Expr.Reading

/-!
Where the problems of an expression lie.

The position of a problem is the place in the text of the character or of the lexeme that the
problem is about, and a problem at the end mark has the position of the end of the text.  The parser
never passes the end mark, and it never runs out of fuel: every lexeme pays for ten calls.
-/

namespace Quill
namespace Expr

open Outcome

/-! ## What a problem is about -/

/-- Whether a problem is about a lexeme of a certain kind.  A character that begins no lexeme is
about none, and no path is asked for inside of an expression. -/
def Problem.Concerns : Problem → Lexeme → Prop
  | .unexpectedCharacter _, _ => False
  | .empty, l => l.kind = .eof
  | .unexpected text, l => l.kind ≠ .eof ∧ l.text = text
  | .unexpectedEnd, l => l.kind = .eof
  | .tooDeep, l => l.Is .operator "!" ∨ l.Is .punct "("
  | .closingParenthesisMissing, l => ¬ l.Is .punct ")"
  | .nameMissing, l => l.kind ≠ .name
  | .fieldMissing, l => l.kind ≠ .name
  | .indexMissing, l => l.kind ≠ .number
  | .indexNotWhole, l => l.kind = .number ∧ '.' ∈ l.text.toList
  | .closingBracketMissing, l => ¬ l.Is .punct "]"
  | .pathMissing, _ => False

/-- Whether a failure is a problem that one of some lexemes is to blame for, at the position of that
lexeme.  A numeral that is too long to be read has no position. -/
def PointsInto (text : String) (ls : List Lexeme) : Failure → Prop
  | .malformed e => e.text = text ∧ ∃ l ∈ ls, e.position = l.position ∧ e.problem.Concerns l
  | .longNumeral _ => True

theorem PointsInto.mono {text : String} {ls ls' : List Lexeme} {f : Failure}
    (h : PointsInto text ls f) (hle : ls <:+ ls') : PointsInto text ls' f := by
  cases f with
  | malformed e =>
    obtain ⟨htext, l, hl, hconcerns⟩ := h
    exact ⟨htext, l, hle.mem hl, hconcerns⟩
  | longNumeral digits => exact h

theorem meets_problemAt {α : Type} {P : α → Prop} {text : String} {ls : List Lexeme}
    {problem : Problem} {l : Lexeme} (hl : l ∈ ls) (h : problem.Concerns l) :
    Meets P (PointsInto text ls) (problemAt text problem l) := ⟨rfl, l, hl, rfl, h⟩

theorem meets_readWhole (text : String) (ls : List Lexeme) (digits : String) :
    Meets (fun _ => True) (PointsInto text ls) (readWhole digits) := by
  rw [readWhole]
  split
  · exact trivial
  · exact trivial

theorem meets_readNumber (text : String) (ls : List Lexeme) (negative : Bool) (numeral : String) :
    Meets (fun _ => True) (PointsInto text ls) (readNumber negative numeral) := by
  rw [readNumber]
  split
  · exact trivial
  · exact (meets_readWhole text ls numeral).bind fun _ _ => trivial

/-! ## Lexemes up to the end mark -/

def Ended (ls : List Lexeme) : Prop := ∃ stop, ls.getLast? = some stop ∧ stop.kind = .eof

/-- Before the end mark there is always more to come. -/
theorem Ended.tail {l : Lexeme} {rest : List Lexeme} (h : Ended (l :: rest)) (hl : l.kind ≠ .eof) :
    Ended rest := by
  obtain ⟨stop, hstop, hkind⟩ := h
  cases rest with
  | nil =>
    obtain rfl : l = stop := Option.some.inj hstop
    exact absurd hkind hl
  | cons m rest => exact ⟨stop, hstop, hkind⟩

theorem Ended.ne_nil {ls : List Lexeme} (h : Ended ls) : ls ≠ [] := by
  rintro rfl
  obtain ⟨stop, hstop, -⟩ := h
  cases hstop

theorem Ended.exists_cons {ls : List Lexeme} (h : Ended ls) : ∃ l rest, ls = l :: rest :=
  List.exists_cons_of_ne_nil h.ne_nil

structure Remains (ls rest : List Lexeme) : Prop where
  suffix : rest <:+ ls
  ended : Ended rest

theorem Remains.trans {a b c : List Lexeme} (hab : Remains a b) (hbc : Remains b c) : Remains a c :=
  ⟨hbc.suffix.trans hab.suffix, hbc.ended⟩

theorem remains_refl {ls : List Lexeme} (h : Ended ls) : Remains ls ls := ⟨List.suffix_refl ls, h⟩

theorem Remains.of_tail {ls rest : List Lexeme} (h : Remains ls.tail rest) : Remains ls rest :=
  ⟨h.suffix.trans (List.tail_suffix ls), h.ended⟩

theorem remains_tail {l : Lexeme} {rest : List Lexeme} (h : Ended (l :: rest))
    (hl : l.kind ≠ .eof) : Remains (l :: rest).tail rest := remains_refl (h.tail hl)

/-! ## Reading to a place or failing at one -/

/-- Whether a reading moves on by at least one lexeme, or fails at one that it could see. -/
def Locates {α : Type} (text : String) (ls : List Lexeme) (x : Except Failure (α × Cursor)) :
    Prop :=
  Meets (fun r => Remains ls.tail r.2.rest) (PointsInto text ls) x

section Steps

variable {text : String} {fuel level : Nat} {left : Expr} {c : Cursor}

theorem parseSteps_meets {ls : List Lexeme} (hls : Ended ls) (before : List Segment) :
    Meets (fun r => Remains ls r.2) (PointsInto text ls) (parseSteps text before ls) := by
  -- Where nothing is left behind a point, a bracket or an index, the end mark would be missing.
  fun_induction parseSteps text before ls with
  | case1 before => exact absurd rfl hls.ne_nil
  | case2 before l hpoint => exact absurd rfl (hls.tail (by rw [hpoint.1]; decide)).ne_nil
  | case3 before l hpoint name rest hname ih =>
    have hrest := (hls.tail (by rw [hpoint.1]; decide)).tail (by rw [hname]; decide)
    have hsuffix : rest <:+ l :: name :: rest :=
      (List.suffix_cons name rest).trans (List.suffix_cons l _)
    exact (ih hrest).mono (fun r hr => ⟨hr.suffix.trans hsuffix, hr.ended⟩)
      fun f hf => hf.mono hsuffix
  | case4 before l hpoint name rest hname => exact meets_problemAt (by simp) hname
  | case5 before l _ hopening =>
    exact absurd rfl (hls.tail (by rw [hopening.1]; decide)).ne_nil
  | case6 before l _ hopening index rest hindex => exact meets_problemAt (by simp) hindex
  | case7 before l _ hopening index rest hindex hpoint =>
    exact meets_problemAt (by simp) ⟨by simpa using hindex, by simpa using hpoint⟩
  | case8 before l _ hopening index hindex hpoint =>
    have hindex : index.kind = .number := by simpa using hindex
    have hrest := (hls.tail (by rw [hopening.1]; decide)).tail (by rw [hindex]; decide)
    exact absurd rfl hrest.ne_nil
  | case9 before l _ hopening index hindex hpoint closing rest hclosing ih =>
    have hindex : index.kind = .number := by simpa using hindex
    have hrest := ((hls.tail (by rw [hopening.1]; decide)).tail
      (by rw [hindex]; decide)).tail (by rw [hclosing.1]; decide)
    have hsuffix : rest <:+ l :: index :: closing :: rest :=
      ((List.suffix_cons closing rest).trans (List.suffix_cons index _)).trans
        (List.suffix_cons l _)
    refine (meets_readWhole text _ index.text).bind fun i _ => ?_
    exact (ih i hrest).mono (fun r hr => ⟨hr.suffix.trans hsuffix, hr.ended⟩)
      fun f hf => hf.mono hsuffix
  | case10 before l _ hopening index hindex hpoint closing rest hclosing =>
    exact meets_problemAt (by simp) hclosing
  | case11 before l rest _ _ => exact remains_refl hls

structure LocatesAt (text : String) (fuel : Nat) : Prop where
  binary : ∀ level c, Ended c.rest → level ≤ Operator.levels →
    10 * c.rest.length + 3 + (Operator.levels - level) ≤ fuel →
    Locates text c.rest (parseBinary text fuel level c)
  chain : ∀ level left c, Ended c.rest → level < Operator.levels → 10 * c.rest.length ≤ fuel →
    Meets (fun r => Remains c.rest r.2.rest) (PointsInto text c.rest)
      (parseChain text fuel level left c)
  unary : ∀ c, Ended c.rest → 10 * c.rest.length + 2 ≤ fuel →
    Locates text c.rest (parseUnary text fuel c)
  primary : ∀ c, Ended c.rest → 10 * c.rest.length + 1 ≤ fuel →
    Locates text c.rest (parsePrimary text fuel c)

theorem parseBinary_locates (ih : LocatesAt text fuel) (hc : Ended c.rest)
    (hlevel : level ≤ Operator.levels)
    (hfuel : 10 * c.rest.length + 3 + (Operator.levels - level) ≤ fuel + 1) :
    Locates text c.rest (parseBinary text (fuel + 1) level c) := by
  rw [parseBinary]
  split
  · exact ih.unary c hc (by omega)
  · refine (ih.binary (level + 1) c hc (by omega) (by omega)).bind ?_
    rintro ⟨left, middle⟩ hmiddle
    have hlength := hmiddle.suffix.length_le
    rw [List.length_tail] at hlength
    have hchain := ih.chain level left middle hmiddle.ended (by omega)
      (by dsimp only at hlength; omega)
    exact hchain.mono (fun r hr => hmiddle.trans hr) fun f hf => hf.mono hmiddle.of_tail.suffix

theorem parseChain_locates (ih : LocatesAt text fuel) (hc : Ended c.rest)
    (hlevel : level < Operator.levels) (hfuel : 10 * c.rest.length ≤ fuel + 1) :
    Meets (fun r => Remains c.rest r.2.rest) (PointsInto text c.rest)
      (parseChain text (fuel + 1) level left c) := by
  rw [parseChain]
  split
  · exact remains_refl hc
  · next op hop =>
    obtain ⟨ls, depth⟩ := c
    obtain ⟨sign, rest, rfl⟩ := hc.exists_cons
    have hsign : sign.kind ≠ .eof := (operatorAt?_cons.mp hop).1.kind_ne_eof (by decide)
    have hrest : Ended rest := hc.tail hsign
    rw [Cursor.advance_cons hsign]
    simp only [List.length_cons] at hfuel
    have hoperand := ih.binary (level + 1) ⟨rest, depth⟩ hrest (by omega)
      (by simp only [Operator.levels] at hlevel ⊢; omega)
    refine (hoperand.mono (fun r hr => hr) fun f hf => hf.mono (List.suffix_cons sign rest)).bind ?_
    rintro ⟨right, middle⟩ hmiddle
    have hlength := hmiddle.suffix.length_le
    rw [List.length_tail] at hlength
    have hchain := ih.chain level (.binary op left right) middle hmiddle.ended hlevel
      (by dsimp only at hlength; omega)
    have hon : Remains (sign :: rest) middle.rest :=
      ⟨(hmiddle.suffix.trans (List.tail_suffix rest)).trans (List.suffix_cons sign rest),
        hmiddle.ended⟩
    exact hchain.mono (fun r hr => hon.trans hr) fun f hf => hf.mono hon.suffix

theorem meets_enter {ls : List Lexeme} {l : Lexeme} (hl : l ∈ ls)
    (hopens : l.Is .operator "!" ∨ l.Is .punct "(") (c : Cursor) :
    Meets (fun inner => inner.rest = c.rest) (PointsInto text ls) (enter text l c) := by
  rw [enter]
  split
  · exact meets_problemAt hl hopens
  · rfl

theorem parseUnary_locates (ih : LocatesAt text fuel) (hc : Ended c.rest)
    (hfuel : 10 * c.rest.length + 2 ≤ fuel + 1) :
    Locates text c.rest (parseUnary text (fuel + 1) c) := by
  rw [parseUnary]
  split
  · next hat =>
    obtain ⟨ls, depth⟩ := c
    obtain ⟨sign, rest, rfl⟩ := hc.exists_cons
    have hsign := Cursor.isAt_cons.mp hat
    have hrest : Ended rest := hc.tail (hsign.kind_ne_eof (by decide))
    rw [Cursor.advance_cons (hsign.kind_ne_eof (by decide)), Cursor.current_cons]
    simp only [List.length_cons] at hfuel
    refine (meets_enter List.mem_cons_self (.inl hsign) _).bind fun inner hinner => ?_
    have hinner : inner.rest = rest := hinner
    have hoperand := ih.unary inner (hinner.symm ▸ hrest) (by rw [hinner]; omega)
    rw [hinner] at hoperand
    refine (hoperand.mono (fun r hr => hr) fun f hf => hf.mono (List.suffix_cons sign rest)).bind ?_
    exact fun r hr => hr.of_tail
  · exact ih.primary c hc (by omega)

theorem parseGroup_locates {l : Lexeme} {rest : List Lexeme} {depth : Nat}
    (ih : LocatesAt text fuel) (hrest : Ended rest) (hopening : l.Is .punct "(")
    (hfuel : 10 * rest.length + 10 ≤ fuel) :
    Locates text (l :: rest) (do
      let inner ← enter text l ⟨rest, depth⟩
      let (e, c) ← parseBinary text fuel 0 inner
      if c.isAt .punct ")" then return (e, leave c.advance)
      else problemAt text .closingParenthesisMissing c.current) := by
  refine (meets_enter List.mem_cons_self (.inr hopening) _).bind fun inner hinner => ?_
  have hinner : inner.rest = rest := hinner
  have hgroup := ih.binary 0 inner (hinner.symm ▸ hrest) (Nat.zero_le _)
    (by rw [hinner]; simp only [Operator.levels]; omega)
  rw [hinner] at hgroup
  refine (hgroup.mono (fun r hr => hr) fun f hf => hf.mono (List.suffix_cons l rest)).bind ?_
  rintro ⟨e, ⟨behind, depth'⟩⟩ hbehind
  have hon : Remains rest behind := hbehind.of_tail
  obtain ⟨closing, behind, rfl⟩ := hon.ended.exists_cons
  dsimp only
  split
  · next hat =>
    have hclosing := Cursor.isAt_cons.mp hat
    rw [Cursor.advance_cons (hclosing.kind_ne_eof (by decide))]
    exact hon.trans (Remains.of_tail (remains_tail hon.ended (hclosing.kind_ne_eof (by decide))))
  · next hat =>
    refine meets_problemAt (List.mem_cons_of_mem l (hon.suffix.mem List.mem_cons_self)) ?_
    exact fun hclosing => hat (Cursor.isAt_cons.mpr hclosing)

theorem parsePathAt_locates {l : Lexeme} {rest : List Lexeme} {depth : Nat}
    (hrest : Ended rest) (hname : l.kind = .name) :
    Locates text (l :: rest) (parsePathAt text ⟨l :: rest, depth⟩) := by
  rw [parsePathAt, if_pos (show (Cursor.mk (l :: rest) depth).current.kind = .name from hname),
    Cursor.advance_cons (by rw [hname]; decide)]
  have hsteps : Meets (fun r => Remains rest r.2) (PointsInto text rest)
    (parseSteps text [] rest) := parseSteps_meets hrest []
  refine (hsteps.mono (fun r hr => hr) fun f hf => hf.mono (List.suffix_cons l rest)).bind ?_
  exact fun r hr => hr

theorem parsePrimary_locates (ih : LocatesAt text fuel) (hc : Ended c.rest)
    (hfuel : 10 * c.rest.length + 1 ≤ fuel + 1) :
    Locates text c.rest (parsePrimary text (fuel + 1) c) := by
  obtain ⟨ls, depth⟩ := c
  obtain ⟨l, rest, rfl⟩ := hc.exists_cons
  simp only [List.length_cons] at hfuel
  -- One lexeme is read.
  have single : ∀ {e : Expr}, l.kind ≠ .eof →
      Locates text (l :: rest) (.ok (e, (Cursor.mk (l :: rest) depth).advance)) := by
    intro e hl
    rw [Cursor.advance_cons hl]
    exact remains_tail hc hl
  dsimp only [parsePrimary]
  rw [Cursor.current_cons]
  split
  · next hnumber =>
    exact (meets_readNumber text _ _ _).bind fun n _ => single (by rw [hnumber]; decide)
  split
  · next hnegative =>
    obtain ⟨hat, hnext⟩ := Bool.and_eq_true_iff.mp hnegative
    have hminus := Cursor.isAt_cons.mp hat
    have hrest : Ended rest := hc.tail (hminus.kind_ne_eof (by decide))
    obtain ⟨m, rest, rfl⟩ := hrest.exists_cons
    rw [Cursor.next_cons_cons] at hnext ⊢
    have hm : m.kind ≠ .eof := by rw [beq_iff_eq.mp hnext]; decide
    rw [Cursor.advance_cons (hminus.kind_ne_eof (by decide)), Cursor.advance_cons hm]
    exact (meets_readNumber text _ _ _).bind fun n _ => (remains_tail hrest hm).of_tail
  split
  · next hstring => exact single (by rw [hstring]; decide)
  split
  · next hname =>
    have hl : l.kind ≠ .eof := by rw [hname]; decide
    split
    · exact single hl
    · exact (parsePathAt_locates (hc.tail hl) hname).bind fun r hr => hr
  split
  · next hat =>
    have hopening := Cursor.isAt_cons.mp hat
    rw [Cursor.advance_cons (hopening.kind_ne_eof (by decide))]
    exact parseGroup_locates ih (hc.tail (hopening.kind_ne_eof (by decide))) hopening (by omega)
  split
  · next heof => exact meets_problemAt List.mem_cons_self heof
  · next heof => exact meets_problemAt List.mem_cons_self ⟨heof, rfl⟩

end Steps

theorem locatesAt (text : String) (fuel : Nat) : LocatesAt text fuel := by
  induction fuel with
  | zero =>
    refine ⟨fun _ _ _ _ hfuel => ?_, fun _ _ c hc _ hfuel => ?_, fun _ _ hfuel => ?_,
      fun _ _ hfuel => ?_⟩
    · omega
    · have hlength := List.length_pos_iff.mpr hc.ne_nil
      omega
    · omega
    · omega
  | succ fuel ih =>
    exact ⟨fun _ _ hc hlevel hfuel => parseBinary_locates ih hc hlevel hfuel,
      fun _ _ _ hc hlevel hfuel => parseChain_locates ih hc hlevel hfuel,
      fun _ hc hfuel => parseUnary_locates ih hc hfuel,
      fun _ hc hfuel => parsePrimary_locates ih hc hfuel⟩

/-! ## Whole texts -/

theorem parseLexemes_meets (text : String) {lexemes : List Lexeme} (h : Ended lexemes) :
    Meets (fun _ => True) (PointsInto text lexemes) (parseLexemes text lexemes) := by
  obtain ⟨l, rest, rfl⟩ := h.exists_cons
  dsimp only [parseLexemes]
  rw [Cursor.current_cons]
  split
  · next heof => exact meets_problemAt List.mem_cons_self heof
  · refine ((locatesAt text _).binary 0 _ h (Nat.zero_le _) ?_).bind ?_
    · simp only [fuelFor, Operator.levels]
      omega
    · rintro ⟨e, ⟨behind, depth⟩⟩ hbehind
      have hon : Remains (l :: rest) behind := hbehind.of_tail
      obtain ⟨stop, behind, rfl⟩ := hon.ended.exists_cons
      dsimp only
      rw [Cursor.current_cons]
      split
      · exact trivial
      · next heof => exact meets_problemAt (hon.suffix.mem List.mem_cons_self) ⟨heof, rfl⟩

/-- Whether a malformed expression is refused because of certain characters, which are the character
that begins no lexeme, or the text of the lexeme that the problem is about. -/
inductive Malformed.Reports (e : Malformed) : List Char → Prop
  | character {c : Char} : e.problem = .unexpectedCharacter c →
      [c] <+: e.text.toList.drop e.position →
      (∀ found n, Lexeme.leading? (e.text.toList.drop e.position) ≠ some (found, n + 1)) →
      Reports e [c]
  | lexeme {lexemes : List Lexeme} {l : Lexeme} : Lexeme.scan e.text = .ok lexemes →
      l ∈ lexemes → l.StandsAt e.text.toList e.position → e.problem.Concerns l →
      Reports e l.text.toList

namespace Malformed.Reports

variable {e : Malformed} {reported : List Char}

theorem isPrefix (h : e.Reports reported) : reported <+: e.text.toList.drop e.position := by
  cases h with
  | character _ hprefix _ => exact hprefix
  | lexeme _ _ hstands _ => exact hstands.isPrefix

/-- Only the end of the text is reported without a character. -/
theorem eq_length_of_empty (h : e.Reports []) : e.position = e.text.toList.length := by
  generalize hreported : ([] : List Char) = reported at h
  cases h with
  | character => cases hreported
  | lexeme _ _ hstands _ => exact hstands.eq_length_of_empty hreported.symm

end Malformed.Reports

/-- A malformed expression is reported at the place of what the problem is about. -/
theorem reports_of_parse {text : String} {e : Malformed}
    (h : parse text = .error (.malformed e)) : e.text = text ∧ ∃ reported, e.Reports reported := by
  rw [parse, lexemesOf] at h
  cases hscan : Lexeme.scan text with
  | error e' =>
    rw [hscan] at h
    cases h
    rw [Lexeme.scan] at hscan
    split at hscan
    · cases hscan
    · next c position hfrom =>
      cases hscan
      obtain ⟨place, hposition, hprefix, hnone⟩ := Lexeme.scanFrom_eq_error hfrom
      rw [Nat.zero_add] at hposition
      subst hposition
      exact ⟨rfl, [c], .character rfl hprefix hnone⟩
  | ok lexemes =>
    rw [hscan] at h
    obtain ⟨body, stop, hlexemes, hstop, -⟩ := Lexeme.scan_eq_ok hscan
    have hended : Ended lexemes := ⟨stop, by rw [hlexemes, List.getLast?_concat], hstop⟩
    obtain ⟨rfl, l, hl, hposition, hconcerns⟩ := (parseLexemes_meets text hended).of_eq_error h
    have hfrom : Lexeme.scanFrom 0 0 e.text.toList = .ok lexemes :=
      lexemesOf_eq_ok_iff.mp (by rw [lexemesOf, hscan])
    obtain ⟨place, hplace, hstands⟩ := Lexeme.standsAt_of_mem_scanFrom hfrom hl
    rw [Nat.zero_add] at hplace
    rw [← hplace, ← hposition] at hstands
    exact ⟨rfl, l.text.toList, .lexeme hscan hl hstands hconcerns⟩

end Expr
end Quill
