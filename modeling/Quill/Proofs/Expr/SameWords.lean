import Mathlib.Data.List.Forall2
import Quill.Expr.Parse
import Quill.Proofs.Outcome

/-!
Expressions and the positions of their lexemes.

The parser looks at the kinds and the texts of lexemes.  Their positions, and the text that they
come from, show up in problems only, so lexemes that are the same words one by one spell the same
expression.
-/

namespace Quill

/-- Whether two lexemes are the same word, wherever they stand. -/
def Lexeme.SameWord (l l' : Lexeme) : Prop := l.kind = l'.kind ∧ l.text = l'.text

namespace Expr

/-! ## Cursors at the same words -/

namespace Cursor

/-- Whether two cursors have the same words before them, and as many levels open. -/
structure Alike (c c' : Cursor) : Prop where
  rest : List.Forall₂ Lexeme.SameWord c.rest c'.rest
  depth : c.depth = c'.depth

variable {c c' : Cursor}

theorem Alike.current (h : Alike c c') : c.current.SameWord c'.current := by
  obtain ⟨rest, depth⟩ := c
  obtain ⟨rest', depth'⟩ := c'
  cases h.rest with
  | nil => exact ⟨rfl, rfl⟩
  | cons hword _ => exact hword

theorem Alike.next (h : Alike c c') : c.next.SameWord c'.next := by
  obtain ⟨rest, depth⟩ := c
  obtain ⟨rest', depth'⟩ := c'
  cases h.rest with
  | nil => exact ⟨rfl, rfl⟩
  | cons hword hrest =>
    cases hrest with
    | nil => exact hword
    | cons hnext _ => exact hnext

theorem Alike.advance (h : Alike c c') : Alike c.advance c'.advance := by
  obtain ⟨rest, depth⟩ := c
  obtain ⟨rest', depth'⟩ := c'
  obtain ⟨hrest, hdepth⟩ := h
  cases hrest with
  | nil => exact ⟨.nil, hdepth⟩
  | @cons l l' rest rest' hword hrest =>
    rw [Cursor.advance, Cursor.advance]
    dsimp only
    rw [hword.1]
    split
    · exact ⟨.cons hword hrest, hdepth⟩
    · exact ⟨hrest, hdepth⟩

theorem Alike.isAt (h : Alike c c') (kind : Lexeme.Kind) (text : String) :
    c.isAt kind text = c'.isAt kind text := by
  rw [Cursor.isAt, Cursor.isAt, h.current.1, h.current.2]

theorem Alike.leave (h : Alike c c') : Alike (leave c) (leave c') :=
  ⟨h.rest, congrArg (· - 1) h.depth⟩

theorem Alike.operatorAt? (h : Alike c c') (level : Nat) :
    operatorAt? level c = operatorAt? level c' := by
  rw [Expr.operatorAt?, Expr.operatorAt?, h.current.1, h.current.2]

end Cursor

/-! ## Readings at the same words -/

def Repeated {α β : Type} (R : β → β → Prop) (x y : Except Failure (α × β)) : Prop :=
  ∀ a b, x = .ok (a, b) → ∃ b', y = .ok (a, b') ∧ R b b'

section Repeated

variable {α β γ δ : Type} {R : β → β → Prop} {S : δ → δ → Prop}

theorem repeated_ok {a : α} {b b' : β} (h : R b b') : Repeated R (.ok (a, b)) (.ok (a, b')) := by
  intro a' b'' heq
  cases heq
  exact ⟨b', rfl, h⟩

theorem repeated_problemAt (text : String) (problem : Problem) (l : Lexeme)
    (y : Except Failure (α × β)) : Repeated R (problemAt text problem l) y :=
  fun _ _ h => by cases h

theorem Repeated.bind {x y : Except Failure (α × β)} {f g : α × β → Except Failure (γ × δ)}
    (h : Repeated R x y) (hnext : ∀ a b b', R b b' → Repeated S (f (a, b)) (g (a, b'))) :
    Repeated S (x >>= f) (y >>= g) := by
  intro c d heq
  obtain ⟨⟨a, b⟩, hx, hf⟩ := Outcome.bind_eq_ok.mp heq
  obtain ⟨b', hy, hb⟩ := h a b hx
  obtain ⟨d', hg, hd⟩ := hnext a b b' hb c d hf
  exact ⟨d', Outcome.bind_eq_ok.mpr ⟨(a, b'), hy, hg⟩, hd⟩

/-- What comes before and does not read lexemes is the same on both sides. -/
theorem repeated_bind {x : Except Failure α} {f g : α → Except Failure (γ × δ)}
    (hnext : ∀ a, Repeated S (f a) (g a)) : Repeated S (x >>= f) (x >>= g) := by
  intro c d heq
  obtain ⟨a, hx, hf⟩ := Outcome.bind_eq_ok.mp heq
  obtain ⟨d', hg, hd⟩ := hnext a c d hf
  exact ⟨d', Outcome.bind_eq_ok.mpr ⟨a, hx, hg⟩, hd⟩

end Repeated

section Reading

variable {text text' : String}

theorem parseSteps_repeated {ls ls' : List Lexeme} (h : List.Forall₂ Lexeme.SameWord ls ls')
    (before : List Segment) :
    Repeated (List.Forall₂ Lexeme.SameWord) (parseSteps text before ls)
      (parseSteps text' before ls') := by
  -- Only the cases in which a step is read, or none is left, do not fail.
  fun_induction parseSteps text before ls generalizing ls' with
  | case1 before =>
    cases h
    exact repeated_ok .nil
  | case3 before l hpoint name rest hname ih =>
    cases h with | @cons _ l' _ _ hl h =>
    cases h with | @cons _ name' _ rest' hfield hrest =>
    have hstep : parseSteps text' before (l' :: name' :: rest') =
        parseSteps text' (before ++ [.field name.text]) rest' := by
      rw [hl.1, hl.2] at hpoint
      rw [hfield.1] at hname
      rw [parseSteps.eq_def]
      dsimp only
      rw [if_pos hpoint, hfield.2, if_pos hname]
    rw [hstep]
    exact ih hrest
  | case9 before l hpoint hopening number hnumber hwhole closing rest hclosing ih =>
    cases h with | @cons _ l' _ _ hl h =>
    cases h with | @cons _ number' _ _ hindex h =>
    cases h with | @cons _ closing' _ rest' hclose hrest =>
    have hstep : parseSteps text' before (l' :: number' :: closing' :: rest') =
        (readWhole number.text >>= fun i =>
          parseSteps text' (before ++ [.index (Int.ofNat i)]) rest') := by
      rw [hl.1, hl.2] at hpoint hopening
      rw [hindex.1] at hnumber
      rw [hindex.2] at hwhole
      rw [hclose.1, hclose.2] at hclosing
      rw [parseSteps.eq_def]
      dsimp only
      rw [if_neg hpoint, if_pos hopening, hindex.2, if_neg hnumber, if_neg hwhole, if_pos hclosing]
    rw [hstep]
    exact repeated_bind fun i => ih i hrest
  | case11 before l rest hpoint hopening =>
    cases h with | @cons _ l' _ rest' hl hrest =>
    have hstop : parseSteps text' before (l' :: rest') = .ok (before, l' :: rest') := by
      rw [hl.1, hl.2] at hpoint hopening
      rw [parseSteps.eq_def]
      dsimp only
      rw [if_neg hpoint, if_neg hopening]
    rw [hstop]
    exact repeated_ok (.cons hl hrest)
  | _ => exact repeated_problemAt _ _ _ _

theorem parsePathAt_repeated {c c' : Cursor} (h : c.Alike c') :
    Repeated Cursor.Alike (parsePathAt text c) (parsePathAt text' c') := by
  rw [parsePathAt, parsePathAt, h.current.1, h.current.2]
  split
  · refine (parseSteps_repeated h.advance.rest []).bind fun steps rest rest' hrest => ?_
    exact repeated_ok ⟨hrest, h.depth⟩
  · exact repeated_problemAt _ _ _ _

theorem enter_bind_repeated {α β : Type} {S : β → β → Prop} {c c' : Cursor} (h : c.Alike c')
    (l l' : Lexeme) {f g : Cursor → Except Failure (α × β)}
    (hnext : ∀ inner inner', Cursor.Alike inner inner' → Repeated S (f inner) (g inner')) :
    Repeated S (enter text l c >>= f) (enter text' l' c' >>= g) := by
  rw [enter, enter, ← h.depth]
  split
  · exact repeated_problemAt _ _ _ _
  · exact hnext _ _ ⟨h.rest, rfl⟩

structure RepeatsAt (text text' : String) (fuel : Nat) : Prop where
  binary : ∀ level c c', Cursor.Alike c c' →
    Repeated Cursor.Alike (parseBinary text fuel level c) (parseBinary text' fuel level c')
  chain : ∀ level left c c', Cursor.Alike c c' →
    Repeated Cursor.Alike (parseChain text fuel level left c) (parseChain text' fuel level left c')
  unary : ∀ c c', Cursor.Alike c c' →
    Repeated Cursor.Alike (parseUnary text fuel c) (parseUnary text' fuel c')
  primary : ∀ c c', Cursor.Alike c c' →
    Repeated Cursor.Alike (parsePrimary text fuel c) (parsePrimary text' fuel c')

variable {fuel : Nat} {c c' : Cursor}

theorem parseBinary_repeated (ih : RepeatsAt text text' fuel) (level : Nat) (h : c.Alike c') :
    Repeated Cursor.Alike (parseBinary text (fuel + 1) level c)
      (parseBinary text' (fuel + 1) level c') := by
  rw [parseBinary, parseBinary]
  split
  · exact ih.unary c c' h
  · exact (ih.binary (level + 1) c c' h).bind fun left c c' h => ih.chain level left c c' h

theorem parseChain_repeated (ih : RepeatsAt text text' fuel) (level : Nat) (left : Expr)
    (h : c.Alike c') :
    Repeated Cursor.Alike (parseChain text (fuel + 1) level left c)
      (parseChain text' (fuel + 1) level left c') := by
  rw [parseChain, parseChain, h.operatorAt? level]
  cases operatorAt? level c' with
  | none => exact repeated_ok h
  | some op =>
    refine (ih.binary (level + 1) _ _ h.advance).bind fun right c c' h => ?_
    exact ih.chain level (.binary op left right) c c' h

theorem parseUnary_repeated (ih : RepeatsAt text text' fuel) (h : c.Alike c') :
    Repeated Cursor.Alike (parseUnary text (fuel + 1) c) (parseUnary text' (fuel + 1) c') := by
  rw [parseUnary, parseUnary, h.isAt]
  split
  · refine enter_bind_repeated h.advance _ _ fun inner inner' hinner => ?_
    refine (ih.unary inner inner' hinner).bind fun operand c c' h => ?_
    exact repeated_ok h.leave
  · exact ih.primary c c' h

theorem parsePrimary_repeated (ih : RepeatsAt text text' fuel) (h : c.Alike c') :
    Repeated Cursor.Alike (parsePrimary text (fuel + 1) c) (parsePrimary text' (fuel + 1) c') := by
  rw [parsePrimary, parsePrimary]
  dsimp only
  simp only [h.current.1, h.current.2, h.next.1, h.next.2, h.isAt]
  split
  · exact repeated_bind fun n => repeated_ok h.advance
  split
  · exact repeated_bind fun n => repeated_ok h.advance.advance
  split
  · exact repeated_ok h.advance
  split
  · split
    · exact repeated_ok h.advance
    · exact (parsePathAt_repeated h).bind fun p c c' h => repeated_ok h
  split
  · refine enter_bind_repeated h.advance _ _ fun inner inner' hinner => ?_
    refine (ih.binary 0 inner inner' hinner).bind fun e c c' h => ?_
    dsimp only
    rw [h.isAt]
    split
    · exact repeated_ok h.advance.leave
    · exact repeated_problemAt _ _ _ _
  split
  · exact repeated_problemAt _ _ _ _
  · exact repeated_problemAt _ _ _ _

theorem repeatsAt (text text' : String) (fuel : Nat) : RepeatsAt text text' fuel := by
  induction fuel with
  | zero =>
    exact ⟨fun _ _ _ _ => repeated_problemAt _ _ _ _, fun _ _ _ _ _ => repeated_problemAt _ _ _ _,
      fun _ _ _ => repeated_problemAt _ _ _ _, fun _ _ _ => repeated_problemAt _ _ _ _⟩
  | succ fuel ih =>
    exact ⟨fun level _ _ h => parseBinary_repeated ih level h,
      fun level left _ _ h => parseChain_repeated ih level left h,
      fun _ _ h => parseUnary_repeated ih h, fun _ _ h => parsePrimary_repeated ih h⟩

/-- Lexemes with the same words spell the same expression. -/
theorem parseLexemes_of_sameWords {ls ls' : List Lexeme} {e : Expr}
    (h : List.Forall₂ Lexeme.SameWord ls ls') (he : parseLexemes text ls = .ok e) :
    parseLexemes text' ls' = .ok e := by
  have hstart : Cursor.Alike ⟨ls, 0⟩ ⟨ls', 0⟩ := ⟨h, rfl⟩
  have hfuel : fuelFor ls = fuelFor ls' := by rw [fuelFor, fuelFor, h.length_eq]
  rw [parseLexemes] at he ⊢
  dsimp only at he ⊢
  rw [hstart.current.1, hfuel] at he
  split at he
  · cases he
  · next hsome =>
    rw [if_neg hsome]
    obtain ⟨⟨e', c⟩, hbinary, he⟩ := Outcome.bind_eq_ok.mp he
    obtain ⟨c', hbinary', hc⟩ := (repeatsAt text text' _).binary 0 _ _ hstart e' c hbinary
    rw [hbinary']
    show (if c'.current.kind = .eof then _ else _) = _
    dsimp only at he
    rw [hc.current.1] at he
    split at he
    · next hend =>
      rw [if_pos hend]
      exact he
    · cases he

end Reading

end Expr
end Quill
