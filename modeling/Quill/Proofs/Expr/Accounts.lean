import Quill.Proofs.Expr.Moments

/-!
Nothing is left out of what is noted on a walk.

What was noted accounts for the spots that a walk comes to: the cursor moves from one moment to the
next by the moves that stand between them, and the count of open parentheses and negations rises by
those that raise it.  Only that the count goes down again is not noted.
-/

namespace Quill
namespace Expr

/-! ## Moments that account for a spot -/

/-- Whether moments lead from one spot to another, each of them at the spot that is reached with
it. -/
inductive Accounts : Spot → List Moment → Spot → Prop
  | done (s : Spot) : Accounts s [] s
  | turn {s s' : Spot} {ms : List Moment} (task : Task) :
      Accounts s ms s' → Accounts s (⟨.turn task, s⟩ :: ms) s'
  | read {s s' : Spot} {ms : List Moment} (place : Nat) :
      Accounts s ms s' → Accounts s (⟨.read place, s⟩ :: ms) s'
  | advance {s s' : Spot} {ms : List Moment} :
      Accounts s.next ms s' → Accounts s (⟨.advance, s.next⟩ :: ms) s'
  | enter {s s' : Spot} {ms : List Moment} :
      Accounts s.deeper ms s' → Accounts s (⟨.enter, s.deeper⟩ :: ms) s'
  | leave {s s' : Spot} {ms : List Moment} : Accounts s.shallower ms s' → Accounts s ms s'

namespace Accounts

variable {s s' s'' : Spot} {ms ms' : List Moment}

theorem append (h : Accounts s ms s') (h' : Accounts s' ms' s'') : Accounts s (ms ++ ms') s'' := by
  induction h with
  | done => exact h'
  | turn task _ ih => exact .turn task (ih h')
  | read place _ ih => exact .read place (ih h')
  | advance _ ih => exact .advance (ih h')
  | enter _ ih => exact .enter (ih h')
  | leave _ ih => exact .leave (ih h')

/-- Each step of the cursor has been noted. -/
theorem place_eq (h : Accounts s ms s') :
    s'.place = s.place + ms.countP fun m => m.action = .advance := by
  induction h with
  | done => rfl
  | turn task _ ih | read place _ ih | enter _ ih =>
    rw [List.countP_cons_of_neg (by simp)]
    exact ih
  | @advance s s' ms _ ih =>
    have hnext : s.next.place = s.place + 1 := rfl
    rw [List.countP_cons_of_pos (by simp), ih, hnext]
    omega
  | leave _ ih => exact ih

/-- Each rise of the count has been noted. -/
theorem depth_le (h : Accounts s ms s') :
    s'.depth ≤ s.depth + ms.countP fun m => m.action = .enter := by
  induction h with
  | done => exact Nat.le_refl _
  | turn task _ ih | read place _ ih | advance _ ih =>
    rw [List.countP_cons_of_neg (by simp)]
    exact ih
  | @enter s s' ms _ ih =>
    have hdeeper : s.deeper.depth = s.depth + 1 := rfl
    rw [List.countP_cons_of_pos (by simp)]
    omega
  | @leave s s' ms _ ih =>
    have hshallower : s.shallower.depth = s.depth - 1 := rfl
    omega

end Accounts

/-! ## Walks that account for where they come to -/

namespace Walk

variable {α β : Type}

/-- Whether what is noted on a walk accounts for where it ends, or for some spot if it fails. -/
structure Accounted (w : Walk α) : Prop where
  ok : ∀ ls s a s', (w ls s).result = .ok (a, s') → Accounts s (w ls s).moments s'
  error : ∀ ls s e, (w ls s).result = .error e → ∃ s', Accounts s (w ls s).moments s'

/-- A walk that notes nothing and stays where it is. -/
theorem accounted_of_silent {w : Walk α} (hmoments : ∀ ls s, (w ls s).moments = [])
    (hspot : ∀ ls s a s', (w ls s).result = .ok (a, s') → s' = s) : w.Accounted where
  ok ls s a s' h := by
    rw [hmoments, hspot ls s a s' h]
    exact .done s
  error ls s e _ := by
    rw [hmoments]
    exact ⟨s, .done s⟩

theorem accounted_pure (a : α) : (pure a : Walk α).Accounted := by
  refine accounted_of_silent (fun _ _ => rfl) fun ls s b s' h => ?_
  cases h
  rfl

theorem accounted_ofExcept (x : Except Failure α) : (ofExcept x).Accounted := by
  refine accounted_of_silent (fun _ _ => rfl) fun ls s b s' h => ?_
  cases x with
  | ok a =>
    cases h
    rfl
  | error e => cases h

theorem accounted_exhausted : (exhausted : Walk α).Accounted :=
  accounted_of_silent (fun _ _ => rfl) fun _ _ _ _ h => by cases h

theorem accounted_spot : spot.Accounted := by
  refine accounted_of_silent (fun _ _ => rfl) fun ls s b s' h => ?_
  cases h
  rfl

theorem accounted_lookup (place : Nat) : (lookup place).Accounted := by
  refine accounted_of_silent (fun _ _ => rfl) fun ls s l s' h => ?_
  rw [lookup] at h
  cases hl : ls[place]? with
  | none =>
    rw [hl] at h
    cases h
  | some m =>
    rw [hl] at h
    cases h
    rfl

theorem Accounted.bind {w : Walk α} {f : α → Walk β} (h : w.Accounted)
    (hf : ∀ a, (f a).Accounted) : (w >>= f).Accounted := by
  constructor
  · intro ls s b s'' hresult
    cases hw : (w ls s).result with
    | error e =>
      rw [bind_of_error hw] at hresult
      cases hresult
    | ok r =>
      obtain ⟨a, s'⟩ := r
      rw [bind_of_ok hw] at hresult ⊢
      exact (h.ok ls s a s' hw).append ((hf a).ok ls s' b s'' hresult)
  · intro ls s e hresult
    cases hw : (w ls s).result with
    | error e' =>
      rw [bind_of_error hw]
      exact h.error ls s e' hw
    | ok r =>
      obtain ⟨a, s'⟩ := r
      rw [bind_of_ok hw] at hresult ⊢
      obtain ⟨last, hlast⟩ := (hf a).error ls s' e hresult
      exact ⟨last, (h.ok ls s a s' hw).append hlast⟩

/-- A walk ends as many places further on as it notes moves, and at most as deep as it notes
rises. -/
theorem Accounted.reached {w : Walk α} (h : w.Accounted) {ls : List Lexeme} {s s' : Spot} {a : α}
    (hresult : (w ls s).result = .ok (a, s')) :
    s'.place = s.place + ((w ls s).moments.countP fun m => m.action = .advance) ∧
      s'.depth ≤ s.depth + (w ls s).moments.countP fun m => m.action = .enter :=
  ⟨(h.ok ls s a s' hresult).place_eq, (h.ok ls s a s' hresult).depth_le⟩

theorem Accounted.ite {c : Prop} [Decidable c] {w w' : Walk α} (h : w.Accounted)
    (h' : w'.Accounted) : (if c then w else w').Accounted := by
  split
  · exact h
  · exact h'

theorem accounted_note {action : Action}
    (h : ∀ s, Accounts s [⟨action, s⟩] s) : (note action).Accounted where
  ok ls s a s' hresult := by
    cases hresult
    exact h s
  error ls s e hresult := by cases hresult

theorem accounted_turn (task : Task) : (note (.turn task)).Accounted :=
  accounted_note fun s => .turn task (.done s)

/-- A move together with the note of it. -/
theorem accounted_noted {f : Spot → Spot} {action : Action}
    (h : ∀ s, Accounts s [⟨action, f s⟩] (f s)) {g : Unit → Walk α} (hg : ∀ u, (g u).Accounted) :
    (move f >>= fun _ => note action >>= g).Accounted := by
  have hnoted : (move f >>= fun _ => note action).Accounted := by
    constructor
    · intro ls s a s' hresult
      cases hresult
      exact h s
    · intro ls s e hresult
      cases hresult
  have hassoc : (move f >>= fun _ => note action >>= g) =
      (move f >>= fun _ => note action) >>= g := rfl
  rw [hassoc]
  exact hnoted.bind hg

/-! ## The parser -/

variable {text : String} {fuel : Nat}

theorem accounted_read (place : Nat) : (read place).Accounted :=
  (accounted_note fun s => .read place (.done s)).bind fun _ => accounted_lookup place

theorem accounted_current : current.Accounted where
  ok ls s := (accounted_read s.place).ok ls s
  error ls s := (accounted_read s.place).error ls s

theorem accounted_peek : peek.Accounted where
  ok ls s := (accounted_read _).ok ls s
  error ls s := (accounted_read _).error ls s

theorem accounted_advance : advance.Accounted := by
  refine accounted_current.bind fun l => .ite ?_ (accounted_pure l)
  exact accounted_noted (fun s => .advance (.done s.next)) fun _ => accounted_pure l

theorem accounted_take (kind : Lexeme.Kind) (text : String) : (take kind text).Accounted := by
  refine accounted_current.bind fun l => .ite ?_ (accounted_pure false)
  exact accounted_advance.bind fun _ => accounted_pure true

theorem accounted_expect (text : String) (kind : Lexeme.Kind) (problem : Problem) :
    (expect text kind problem).Accounted :=
  accounted_current.bind fun _ => .ite accounted_advance (accounted_ofExcept _)

theorem accounted_enter (text : String) (l : Lexeme) : (enter text l).Accounted := by
  refine accounted_noted (fun s => .enter (.done s.deeper)) fun _ => accounted_spot.bind fun s => ?_
  exact .ite (accounted_ofExcept _) (accounted_pure ())

theorem accounted_leave : leave.Accounted where
  ok ls s a s' hresult := by
    cases hresult
    exact .leave (.done s.shallower)
  error ls s e hresult := by cases hresult

theorem accounted_signs (l : Lexeme) : (signs l).Accounted :=
  .ite (accounted_peek.bind fun _ => accounted_pure _) (accounted_pure false)

theorem accounted_steps (text : String) (fuel : Nat) (before : List Segment) :
    (steps text fuel before).Accounted := by
  induction fuel generalizing before with
  | zero => exact accounted_exhausted
  | succ fuel ih =>
    refine (accounted_turn .steps).bind fun _ => (accounted_take .punct ".").bind fun point => ?_
    refine .ite ((accounted_expect text .name _).bind fun field => ih _) ?_
    refine (accounted_take .punct "[").bind fun bracket => .ite ?_ (accounted_pure before)
    refine (accounted_expect text .number _).bind fun index => .ite (accounted_ofExcept _) ?_
    refine (accounted_take .punct "]").bind fun closed => .ite ?_ ?_
    · exact (accounted_ofExcept _).bind fun i => ih _
    · exact accounted_current.bind fun l => accounted_ofExcept _

theorem accounted_path (text : String) (fuel : Nat) : (path text fuel).Accounted :=
  (accounted_expect text .name _).bind fun _ =>
    (accounted_steps text fuel []).bind fun _ => accounted_pure _

structure AccountedAt (text : String) (fuel : Nat) : Prop where
  binary : ∀ level, (binary text fuel level).Accounted
  chain : ∀ level left, (chain text fuel level left).Accounted
  unary : (unary text fuel).Accounted
  primary : (primary text fuel).Accounted

theorem accounted_binary (ih : AccountedAt text fuel) (level : Nat) :
    (binary text (fuel + 1) level).Accounted := by
  rw [binary]
  refine (accounted_turn _).bind fun _ => .ite ih.unary ?_
  exact (ih.binary (level + 1)).bind fun left => ih.chain level left

theorem accounted_chain (ih : AccountedAt text fuel) (level : Nat) (left : Expr) :
    (chain text (fuel + 1) level left).Accounted := by
  rw [chain]
  refine (accounted_turn _).bind fun _ => accounted_current.bind fun l => ?_
  cases operatorOf? level l with
  | none => exact accounted_pure left
  | some op =>
    exact accounted_advance.bind fun _ => (ih.binary (level + 1)).bind fun _ => ih.chain level _

theorem accounted_unary (ih : AccountedAt text fuel) : (unary text (fuel + 1)).Accounted := by
  rw [unary]
  refine (accounted_turn _).bind fun _ => accounted_current.bind fun l => ?_
  refine (accounted_take .operator "!").bind fun negated => .ite ?_ ih.primary
  refine (accounted_enter text l).bind fun _ => ih.unary.bind fun operand => ?_
  exact accounted_leave.bind fun _ => accounted_pure _

theorem accounted_primary (ih : AccountedAt text fuel) : (primary text (fuel + 1)).Accounted := by
  rw [primary]
  refine (accounted_turn _).bind fun _ => accounted_current.bind fun l => .ite ?_ ?_
  · exact accounted_advance.bind fun _ => (accounted_ofExcept _).bind fun n => accounted_pure _
  refine (accounted_signs l).bind fun signed => .ite ?_ (.ite ?_ (.ite ?_ ?_))
  · exact accounted_advance.bind fun _ => accounted_advance.bind fun numeral =>
      (accounted_ofExcept _).bind fun n => accounted_pure _
  · exact accounted_advance.bind fun _ => accounted_pure _
  · cases Literal.ofWord? l.text with
    | some word => exact accounted_advance.bind fun _ => accounted_pure _
    | none => exact (accounted_path text fuel).bind fun p => accounted_pure _
  refine (accounted_take .punct "(").bind fun opened => .ite ?_ (.ite ?_ ?_)
  · refine (accounted_enter text l).bind fun _ => (ih.binary 0).bind fun e => ?_
    refine (accounted_take .punct ")").bind fun closed => .ite ?_ ?_
    · exact accounted_leave.bind fun _ => accounted_pure e
    · exact accounted_current.bind fun l => accounted_ofExcept _
  · exact accounted_ofExcept _
  · exact accounted_ofExcept _

theorem accountedAt (text : String) (fuel : Nat) : AccountedAt text fuel := by
  induction fuel with
  | zero =>
    exact ⟨fun _ => accounted_exhausted, fun _ _ => accounted_exhausted, accounted_exhausted,
      accounted_exhausted⟩
  | succ fuel ih =>
    exact ⟨accounted_binary ih, accounted_chain ih, accounted_unary ih, accounted_primary ih⟩

theorem accounted_expression (text : String) (fuel : Nat) : (expression text fuel).Accounted := by
  refine accounted_current.bind fun l => .ite (accounted_ofExcept _) ?_
  refine ((accountedAt text fuel).binary 0).bind fun e => accounted_current.bind fun l => ?_
  exact .ite (accounted_pure e) (accounted_ofExcept _)

end Walk
end Expr
end Quill
