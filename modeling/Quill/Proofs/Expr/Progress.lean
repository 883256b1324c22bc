import Mathlib.Data.List.Perm.Subperm
import Quill.Proofs.Expr.Accounts

/-!
How the parser of expressions makes progress.

With fuel enough for the lexemes that are left, each part of the parser tracks the walk that does
the same by places (`TracksAt`).  So on a list that ends in its only end mark the parser comes to an
end inside the list, no call and no loop is met twice at one place, and the count of open
parentheses and negations is bounded.
-/

namespace Quill
namespace Expr

variable {ls : List Lexeme} {s s' : Spot} {rank rank' : Nat} {ms : List Moment} {l : Lexeme}

/-! ## The parts of the parser -/

/-- Whether a walk ends with the result and at the cursor of the parser: at a place of the list,
from some place on, and with the count that it began with. -/
structure Lands {α : Type} (ls : List Lexeme) (place depth : Nat) (a : α) (s : Spot)
    (r : α × Cursor) : Prop where
  result_eq : r = (a, s.cursor ls)
  place_le : place ≤ s.place
  place_lt : s.place < ls.length
  depth_eq : s.depth = depth

theorem Lands.at {α : Type} {place depth : Nat} {a : α} {r : α × Cursor}
    (h : Lands ls place depth a s r) (hdepth : depth ≤ maxNesting) : ∃ l, At ls s l :=
  ⟨_, List.getElem?_eq_getElem h.place_lt, h.depth_eq ▸ hdepth⟩

theorem Lands.mono {α : Type} {place place' depth : Nat} {a : α} {r : α × Cursor}
    (h : Lands ls place' depth a s r) (hle : place ≤ place') : Lands ls place depth a s r :=
  ⟨h.result_eq, Nat.le_trans hle h.place_le, h.place_lt, h.depth_eq⟩

def Spot.left (ls : List Lexeme) (s : Spot) : Nat := ls.length - s.place

structure TracksAt (ls : List Lexeme) (text : String) (fuel : Nat) : Prop where
  binary : ∀ {fuel' level s l}, At ls s l → level ≤ Operator.levels →
    10 * s.left ls + Operator.levels + 3 ≤ fuel + level →
    10 * s.left ls + Operator.levels + 3 ≤ fuel' + level →
    Tracks ls s (Operator.levels + 1 + level) (Operator.levels + 1 - level)
      (Lands ls (s.place + 1) s.depth) (Walk.binary text fuel level)
      (parseBinary text fuel' level (s.cursor ls))
  chain : ∀ {fuel' level left s l}, At ls s l → level < Operator.levels →
    10 * s.left ls + 1 ≤ fuel → 10 * s.left ls + 1 ≤ fuel' →
    Tracks ls s (Operator.levels - level) (Operator.levels + 1 - level)
      (Lands ls s.place s.depth) (Walk.chain text fuel level left)
      (parseChain text fuel' level left (s.cursor ls))
  unary : ∀ {fuel' s l}, At ls s l → 10 * s.left ls + 2 ≤ fuel → 10 * s.left ls + 2 ≤ fuel' →
    Tracks ls s (2 * Operator.levels + 2) 1 (Lands ls (s.place + 1) s.depth)
      (Walk.unary text fuel) (parseUnary text fuel' (s.cursor ls))
  primary : ∀ {fuel' s l}, At ls s l → 10 * s.left ls + 1 ≤ fuel → 10 * s.left ls + 1 ≤ fuel' →
    Tracks ls s (2 * Operator.levels + 3) 1 (Lands ls (s.place + 1) s.depth)
      (Walk.primary text fuel) (parsePrimary text fuel' (s.cursor ls))

section Parts

variable {text : String} {fuel fuel' level : Nat}

theorem At.operatorAt?_eq (h : At ls s l) (level : Nat) :
    operatorAt? level (s.cursor ls) = Walk.operatorOf? level l := by
  rw [operatorAt?, h.current_eq]
  rfl

theorem kind_of_operatorOf? {op : Operator} (h : Walk.operatorOf? level l = some op) :
    l.kind = .operator := by
  rw [Walk.operatorOf?] at h
  by_contra hkind
  rw [if_neg hkind] at h
  cases h

theorem left_succ_le (hplace : s.place + 1 ≤ s'.place) (hlt : s'.place < ls.length) :
    s'.left ls + 1 ≤ s.left ls := by
  rw [Spot.left, Spot.left]
  omega

theorem binary_tracks (ih : TracksAt ls text fuel) (h : At ls s l)
    (hlevel : level ≤ Operator.levels)
    (hfuel : 10 * s.left ls + Operator.levels + 3 ≤ fuel + 1 + level)
    (hfuel' : 10 * s.left ls + Operator.levels + 3 ≤ fuel' + 1 + level) :
    Tracks ls s (Operator.levels + 1 + level) (Operator.levels + 1 - level)
      (Lands ls (s.place + 1) s.depth) (Walk.binary text (fuel + 1) level)
      (parseBinary text (fuel' + 1) level (s.cursor ls)) := by
  have hrank : Operator.levels + 1 + level < ranks := by
    rw [ranks]
    omega
  rw [Walk.binary, parseBinary]
  refine .turn h (Task.rank_binary level) hrank ?_
  by_cases hlast : level = Operator.levels
  · rw [if_pos hlast, if_pos hlast]
    exact (ih.unary h (by omega) (by omega)).mono (fun _ _ _ h => h) (by omega) (by omega)
  · rw [if_neg hlast, if_neg hlast]
    have hnext : level + 1 ≤ Operator.levels := by omega
    refine (ih.binary h hnext (by omega) (by omega)).bind fun left s' _ hleft => ?_
    obtain ⟨m, hm⟩ := hleft.at h.depth_le
    obtain ⟨rfl, hplace, hlt, hdepth⟩ := hleft
    have hless := left_succ_le hplace hlt
    refine (ih.chain hm (by omega) (by omega) (by omega)).mono (fun _ _ _ h => ?_) (by omega)
      (Nat.le_refl _)
    rw [hdepth] at h
    exact h.mono hplace

theorem chain_tracks (hls : Sealed ls) (ih : TracksAt ls text fuel) (h : At ls s l)
    (hlevel : level < Operator.levels) (hfuel : 10 * s.left ls + 1 ≤ fuel + 1)
    (hfuel' : 10 * s.left ls + 1 ≤ fuel' + 1) (left : Expr) :
    Tracks ls s (Operator.levels - level) (Operator.levels + 1 - level)
      (Lands ls s.place s.depth) (Walk.chain text (fuel + 1) level left)
      (parseChain text (fuel' + 1) level left (s.cursor ls)) := by
  have hrank : Operator.levels - level < ranks := by
    rw [ranks]
    omega
  rw [Walk.chain, parseChain, h.operatorAt?_eq]
  refine .turn h (Task.rank_chain level) hrank (.current h ?_)
  cases hop : Walk.operatorOf? level l with
  | none => exact .of_pure ⟨rfl, Nat.le_refl _, h.place_lt, rfl⟩ (by omega)
  | some op =>
    have hkind : l.kind ≠ .eof := by
      rw [kind_of_operatorOf? hop]
      decide
    have hlevels : Operator.levels = 6 := rfl
    dsimp only
    rw [h.advance_eq hkind]
    refine .advance hls h hkind (Operator.levels + 1 + (level + 1))
      (Nat.le_trans hrank (Nat.le_add_left _ _)) fun m hm => ?_
    have hless : s.next.left ls + 1 ≤ s.left ls := left_succ_le (Nat.le_refl _) hm.place_lt
    refine (ih.binary hm (by omega) (by omega) (by omega)).bind fun right s' _ hright => ?_
    obtain ⟨m', hm'⟩ := hright.at hm.depth_le
    obtain ⟨rfl, hplace, hlt, hdepth⟩ := hright
    have hless' := left_succ_le hplace hlt
    refine (ih.chain hm' hlevel (by omega) (by omega)).mono (fun _ _ _ h => ?_) (by omega)
      (Nat.le_refl _)
    rw [hdepth] at h
    exact h.mono (Nat.le_of_succ_le (Nat.le_of_succ_le hplace))

theorem unary_tracks (hls : Sealed ls) (ih : TracksAt ls text fuel) (h : At ls s l)
    (hfuel : 10 * s.left ls + 2 ≤ fuel + 1) (hfuel' : 10 * s.left ls + 2 ≤ fuel' + 1) :
    Tracks ls s (2 * Operator.levels + 2) 1 (Lands ls (s.place + 1) s.depth)
      (Walk.unary text (fuel + 1)) (parseUnary text (fuel' + 1) (s.cursor ls)) := by
  rw [Walk.unary, parseUnary, h.current_eq]
  refine .turn h Task.rank_unary (by decide) (.current h ?_)
  refine .take hls h (by decide) (2 * Operator.levels + 2) (by decide) h.isAt_iff
    (fun hnot m hm => ?_) fun _ => ih.primary h (by omega) (by omega)
  have hless : s.next.deeper.left ls + 1 ≤ s.left ls := left_succ_le (Nat.le_refl _) hm.place_lt
  rw [h.advance_eq (hnot.kind_ne_eof (by decide))]
  refine .enter hm l fun hinner => ?_
  refine (ih.unary hinner (by omega) (by omega)).bind fun operand s' _ hoperand => ?_
  obtain ⟨rfl, hplace, hlt, hdepth⟩ := hoperand
  refine .bind_quiet (Walk.quiet_leave s') (.of_le (Nat.le_refl _) _) ?_
  exact .of_pure ⟨rfl, Nat.le_of_succ_le hplace, hlt, congrArg (· - 1) hdepth⟩ (Nat.le_refl _)

/-! ### Paths -/

theorem At.drop_eq (h : At ls s l) : ls.drop s.place = l :: ls.drop (s.place + 1) :=
  congrArg Cursor.rest h.cursor_eq

def LandsBefore (ls : List Lexeme) (place depth : Nat) (segments : List Segment) (s : Spot)
    (r : List Segment × List Lexeme) : Prop :=
  Lands ls place depth segments s (r.1, ⟨r.2, depth⟩)

def StepsTrack (ls : List Lexeme) (text : String) (fuel place depth : Nat) : Prop :=
  ∀ {s : Spot} {l : Lexeme}, At ls s l → place ≤ s.place → s.depth = depth → ∀ before,
    Tracks ls s 0 1 (LandsBefore ls place depth)
      (Walk.steps text fuel before) (parseSteps text before (ls.drop s.place))

/-- Behind a point comes the name of a field. -/
theorem field_tracks (hls : Sealed ls) (h : At ls s l)
    (hrest : StepsTrack ls text fuel s.next.place s.depth) (before : List Segment) :
    Tracks ls s 0 1 (LandsBefore ls s.next.place s.depth)
      (Walk.expect text .name .fieldMissing >>= fun field =>
        Walk.steps text fuel (before ++ [.field field.text]))
      (if l.kind = .name then parseSteps text (before ++ [.field l.text]) (ls.drop (s.place + 1))
        else problemAt text .fieldMissing l) :=
  .expect hls h (by decide) 0 (Nat.zero_le _)
    fun _ _ hm => hrest hm (Nat.le_refl _) rfl _

/-- Behind an opening bracket come a whole number and a closing bracket. -/
theorem index_tracks (hls : Sealed ls) (h : At ls s l)
    (hrest : StepsTrack ls text fuel s.next.next.place s.depth) (before : List Segment) :
    Tracks ls s 0 1 (LandsBefore ls s.next.next.place s.depth)
      (Walk.expect text .number .indexMissing >>= fun index =>
        if index.text.toList.contains '.' then
          Walk.ofExcept (problemAt text .indexNotWhole index)
        else Walk.take .punct "]" >>= fun closed =>
          if closed = true then Walk.ofExcept (readWhole index.text) >>= fun i =>
            Walk.steps text fuel (before ++ [.index (Int.ofNat i)])
          else Walk.current >>= fun l =>
            Walk.ofExcept (problemAt text .closingBracketMissing l))
      (if l.kind = .number then
        if l.text.toList.contains '.' then problemAt text .indexNotWhole l
        else
          match ls.drop (s.place + 1) with
          | [] => problemAt text .closingBracketMissing l
          | close :: rest =>
            if close.kind = .punct ∧ close.text = "]" then do
              let i ← readWhole l.text
              parseSteps text (before ++ [.index (Int.ofNat i)]) rest
            else problemAt text .closingBracketMissing close
        else problemAt text .indexMissing l) := by
  refine .expect hls h (by decide) 0 (Nat.zero_le _) fun _ m hm => ?_
  by_cases hpoint : l.text.toList.contains '.' = true
  · rw [if_pos hpoint, if_pos hpoint]
    exact .fails _ l
  · have hdrop : ls.drop (s.place + 1) = m :: ls.drop (s.place + 1 + 1) := hm.drop_eq
    rw [if_neg hpoint, if_neg hpoint, hdrop]
    refine .take hls hm (by decide) 0 (Nat.zero_le _) Iff.rfl
      (fun _ k hk => ?_) fun _ => .current hm (.fails _ m)
    exact .ofExcept fun i => hrest hk (Nat.le_refl _) rfl _

theorem steps_tracks (hls : Sealed ls) (h : At ls s l) (hfuel : s.left ls + 1 ≤ fuel)
    (before : List Segment) :
    Tracks ls s 0 1 (LandsBefore ls s.place s.depth)
      (Walk.steps text fuel before) (parseSteps text before (ls.drop s.place)) := by
  induction fuel generalizing s l before with
  | zero => cases hfuel
  | succ fuel ih =>
    have hrest : ∀ place, s.place < place → StepsTrack ls text fuel place s.depth := by
      intro place hplace s' m hm hle hdepth before
      have hless := left_succ_le (Nat.le_trans hplace hle) hm.place_lt
      rw [← hdepth]
      exact (ih hm (by omega) before).imp fun _ _ _ h => Lands.mono h hle
    rw [Walk.steps, h.drop_eq, parseSteps.eq_def]
    dsimp only
    refine .turn h Task.rank_steps (by decide) ?_
    refine .take hls h (by decide) 0 (by decide) Iff.rfl
      (fun _ m hm => ?_) fun _ => ?_
    · have hdrop : ls.drop (s.place + 1) = m :: ls.drop (s.place + 1 + 1) := hm.drop_eq
      rw [hdrop]
      exact (field_tracks hls hm (hrest _ (Nat.le_succ _)) before).imp
        fun _ _ _ h => Lands.mono h (Nat.le_add_right _ 2)
    refine .take hls h (by decide) 0 (by decide) Iff.rfl
      (fun _ m hm => ?_) fun _ => ?_
    · have hdrop : ls.drop (s.place + 1) = m :: ls.drop (s.place + 1 + 1) := hm.drop_eq
      rw [hdrop]
      dsimp only
      simp only [ne_eq, ite_not]
      exact (index_tracks hls hm (hrest _ (Nat.le_add_right _ 2)) before).imp
        fun _ _ _ h => Lands.mono h (Nat.le_add_right _ 3)
    · exact .of_pure ⟨by rw [h.cursor_eq], Nat.le_refl _, h.place_lt, rfl⟩ (Nat.le_refl _)

theorem path_tracks (hls : Sealed ls) (h : At ls s l) (hfuel : s.left ls ≤ fuel) :
    Tracks ls s (2 * Operator.levels + 4) 1 (Lands ls (s.place + 1) s.depth)
      (Walk.path text fuel) (parsePathAt text (s.cursor ls)) := by
  rw [Walk.path, parsePathAt, h.current_eq]
  refine .expect hls h (by decide) 0 (by decide)
    fun hname m hm => ?_
  have hkind : l.kind ≠ .eof := by
    rw [hname]
    decide
  have hless : s.next.left ls + 1 ≤ s.left ls := left_succ_le (Nat.le_refl _) hm.place_lt
  rw [h.advance_eq hkind]
  refine (steps_tracks hls hm (by omega) []).bind fun segments s' _ hsegments => ?_
  obtain ⟨hresult, hplace, hlt, hdepth⟩ := hsegments
  obtain ⟨rfl, hcursor⟩ := Prod.mk.inj hresult
  exact .of_pure ⟨congrArg (Prod.mk _) hcursor, hplace, hlt, hdepth⟩ (Nat.le_refl _)

/-! ### Operands -/

/-- A walk that ends one lexeme further on. -/
theorem lands_next {e : Expr} {m : Lexeme} (h : At ls s.next m) :
    Lands ls (s.place + 1) s.depth e s.next (e, s.next.cursor ls) :=
  ⟨rfl, Nat.le_refl _, h.place_lt, rfl⟩

/-- An expression in parentheses, behind the first of them. -/
theorem group_tracks (hls : Sealed ls) (ih : TracksAt ls text fuel) (h : At ls s l)
    (hfuel : 10 * s.left ls + 9 ≤ fuel) (hfuel' : 10 * s.left ls + 9 ≤ fuel')
    (opener : Lexeme) :
    Tracks ls s (Operator.levels + 1) 1 (Lands ls s.next.place s.depth)
      (Walk.enter text opener >>= fun _ => Walk.binary text fuel 0 >>= fun e =>
        Walk.take .punct ")" >>= fun closed =>
          if closed = true then Walk.leave >>= fun _ => pure e
          else Walk.current >>= fun l =>
            Walk.ofExcept (problemAt text .closingParenthesisMissing l))
      (enter text opener (s.cursor ls) >>= fun inner => parseBinary text fuel' 0 inner >>= fun r =>
        if r.2.isAt .punct ")" then pure (r.1, leave r.2.advance)
        else problemAt text .closingParenthesisMissing r.2.current) := by
  refine .enter h opener fun hinner => ?_
  refine (ih.binary hinner (Nat.zero_le _) hfuel hfuel').bind fun e s' _ he => ?_
  obtain ⟨m, hm⟩ := he.at hinner.depth_le
  obtain ⟨rfl, hplace, hlt, hdepth⟩ := he
  dsimp only
  rw [hm.current_eq]
  refine .take hls hm (by decide) 1 (by decide) hm.isAt_iff
    (fun hclose k hk => ?_) fun _ => .current hm (.fails _ m)
  rw [hm.advance_eq (hclose.kind_ne_eof (by decide))]
  refine .bind_quiet (Walk.quiet_leave _) (.of_le (Nat.le_refl _) _) ?_
  exact .of_pure ⟨rfl, Nat.le_succ_of_le hplace, hk.place_lt, congrArg (· - 1) hdepth⟩
    (Nat.le_refl _)

/-- A sign in front of a numeral is seen alike. -/
theorem exists_quiet_signs (hls : Sealed ls) (h : At ls s l) :
    ∃ signed, Walk.Quiet ls (Walk.signs l) s signed s ∧
      ((s.cursor ls).isAt .operator "-" && (s.cursor ls).next.kind == .number) = signed ∧
      (signed = true → l.kind ≠ .eof ∧ (s.cursor ls).next.kind = .number) := by
  by_cases hminus : l.Is .operator "-"
  · have hkind : l.kind ≠ .eof := hminus.kind_ne_eof (by decide)
    obtain ⟨m, hm⟩ := h.next hls hkind
    refine ⟨_, Walk.quiet_signs h hm hminus, ?_, fun hnumber => ⟨hkind, ?_⟩⟩
    · rw [h.isAt_iff.mpr hminus, h.next_eq hm, Bool.true_and]
    · rw [h.next_eq hm]
      exact beq_iff_eq.mp hnumber
  · refine ⟨false, Walk.quiet_signs_of_not hminus s, ?_, fun h => by cases h⟩
    rw [Bool.eq_false_iff.mpr (fun hat => hminus (h.isAt_iff.mp hat)), Bool.false_and]

theorem primary_tracks (hls : Sealed ls) (ih : TracksAt ls text fuel) (h : At ls s l)
    (hfuel : 10 * s.left ls + 1 ≤ fuel + 1) (hfuel' : 10 * s.left ls + 1 ≤ fuel' + 1) :
    Tracks ls s (2 * Operator.levels + 3) 1 (Lands ls (s.place + 1) s.depth)
      (Walk.primary text (fuel + 1)) (parsePrimary text (fuel' + 1) (s.cursor ls)) := by
  rw [Walk.primary, parsePrimary]
  dsimp only
  rw [h.current_eq]
  refine .turn h Task.rank_primary (by decide) (.current h ?_)
  have hadvance : ∀ {kind}, l.kind = kind → kind ≠ .eof → l.kind ≠ .eof ∧
      (s.cursor ls).advance = s.next.cursor ls :=
    fun hkind hne => ⟨hkind ▸ hne, h.advance_eq (hkind ▸ hne)⟩
  by_cases hnumber : l.kind = .number
  · obtain ⟨hkind, hnext⟩ := hadvance hnumber (by decide)
    rw [if_pos hnumber, if_pos hnumber, hnext]
    exact .advance hls h hkind 1 (by decide) fun m hm =>
      .ofExcept fun n => .of_pure (lands_next hm) (Nat.le_refl _)
  rw [if_neg hnumber, if_neg hnumber]
  obtain ⟨signed, hsigns, hsigned, hnumeral⟩ := exists_quiet_signs hls h
  refine .bind_quiet hsigns (.of_le (Nat.le_refl _) s) ?_
  rw [hsigned]
  by_cases hsign : signed = true
  · obtain ⟨hkind, hnumeral⟩ := hnumeral hsign
    rw [if_pos hsign, if_pos hsign, h.advance_eq hkind]
    refine .advance hls h hkind 1 (by decide) fun m hm => ?_
    have hkind' : m.kind ≠ .eof := by
      rw [← h.next_eq hm, hnumeral]
      decide
    rw [h.next_eq hm, hm.advance_eq hkind']
    exact .advance hls hm hkind' 1 (by decide) fun k hk =>
      .ofExcept fun n => .of_pure ((lands_next hk).mono (Nat.le_succ _)) (Nat.le_refl _)
  rw [if_neg hsign, if_neg hsign]
  by_cases hstring : l.kind = .string
  · obtain ⟨hkind, hnext⟩ := hadvance hstring (by decide)
    rw [if_pos hstring, if_pos hstring, hnext]
    exact .advance hls h hkind 1 (by decide) fun m hm =>
      .of_pure (lands_next hm) (Nat.le_refl _)
  rw [if_neg hstring, if_neg hstring]
  by_cases hname : l.kind = .name
  · obtain ⟨hkind, hnext⟩ := hadvance hname (by decide)
    rw [if_pos hname, if_pos hname]
    cases Literal.ofWord? l.text with
    | some word =>
      dsimp only
      rw [hnext]
      exact .advance hls h hkind 1 (by decide) fun m hm =>
        .of_pure (lands_next hm) (Nat.le_refl _)
    | none =>
      refine (path_tracks hls h (by omega)).bind fun p s' _ hp => ?_
      obtain ⟨rfl, hplace, hlt, hdepth⟩ := hp
      exact .of_pure ⟨rfl, hplace, hlt, hdepth⟩ (Nat.le_refl _)
  rw [if_neg hname, if_neg hname]
  refine .take hls h (by decide) (Operator.levels + 1) (by decide) h.isAt_iff
    (fun hopening m hm => ?_) fun _ => ?_
  · have hless : s.next.left ls + 1 ≤ s.left ls := left_succ_le (Nat.le_refl _) hm.place_lt
    rw [h.advance_eq (hopening.kind_ne_eof (by decide))]
    exact (group_tracks hls ih hm (by omega) (by omega) l).imp fun _ _ _ h => h.mono (Nat.le_succ _)
  · by_cases hstop : l.kind = .eof
    · rw [if_pos hstop, if_pos hstop]
      exact .fails _ l
    · rw [if_neg hstop, if_neg hstop]
      exact .fails _ l

/-- The induction is on the fuel of the walk; the parser may have more or less, but enough. -/
theorem tracksAt (hls : Sealed ls) (text : String) (fuel : Nat) : TracksAt ls text fuel := by
  induction fuel with
  | zero =>
    refine ⟨fun _ hlevel hfuel _ => ?_, fun _ _ hfuel _ => ?_, fun _ hfuel _ => ?_,
      fun _ hfuel _ => ?_⟩ <;> omega
  | succ fuel ih =>
    constructor
    case binary =>
      intro fuel' level s l h hlevel hfuel hfuel'
      cases fuel' with
      | zero => omega
      | succ fuel' => exact binary_tracks ih h hlevel hfuel hfuel'
    case chain =>
      intro fuel' level left s l h hlevel hfuel hfuel'
      cases fuel' with
      | zero => omega
      | succ fuel' => exact chain_tracks hls ih h hlevel hfuel hfuel' left
    case unary =>
      intro fuel' s l h hfuel hfuel'
      cases fuel' with
      | zero => omega
      | succ fuel' => exact unary_tracks hls ih h hfuel hfuel'
    case primary =>
      intro fuel' s l h hfuel hfuel'
      cases fuel' with
      | zero => omega
      | succ fuel' => exact primary_tracks hls ih h hfuel hfuel'

end Parts

/-! ## Whole lists -/

def Task.loops : Task → Bool
  | .chain _ | .steps => true
  | .binary _ | .unary | .primary => false

theorem Task.rank_lt_of_loops {task task' : Task} (h : task.loops = false)
    (h' : task'.loops = true) : task'.rank < task.rank := by
  have hloop : task'.rank ≤ Operator.levels := by
    cases task' with
    | chain level => exact Nat.sub_le _ _
    | steps => exact Nat.zero_le _
    | _ => cases h'
  have hcall : Operator.levels < task.rank := by
    cases task with
    | binary level => exact Nat.lt_add_right level (Nat.lt_succ_self _)
    | unary => decide
    | primary => decide
    | _ => cases h
  exact Nat.lt_of_le_of_lt hloop hcall

/-- What holds of everything that is noted on a walk through a list. -/
structure Bounded (ls : List Lexeme) (ms : List Moment) : Prop where
  /-- The cursor and whatever is asked for lie inside the list. -/
  inside : ∀ m ∈ ms, m.spot.place < ls.length ∧
    ∀ place, m.action = .read place → place < ls.length
  /-- The count of open parentheses and negations goes at most one beyond the limit. -/
  depth_le : ∀ m ∈ ms, m.spot.depth ≤ maxNesting + 1
  /-- The cursor never moves back. -/
  forward : ms.Pairwise fun m m' => m.spot.place ≤ m'.spot.place
  /-- A call or a turn of a loop comes again only behind a lexeme that has been consumed. -/
  consuming : ms.Pairwise fun m m' => ∀ task, m.action = .turn task → m'.action = .turn task →
    m.spot.place < m'.spot.place
  /-- A loop comes around only behind a lexeme that has been consumed since each call began. -/
  looping : ms.Pairwise fun m m' => ∀ task task', m.action = .turn task →
    m'.action = .turn task' → task.loops = false → task'.loops = true →
    m.spot.place < m'.spot.place
  /-- Each lexeme leads to a bounded number of calls and turns. -/
  turns_le : (ms.filterMap Moment.time?).length ≤ ranks * ls.length

theorem Moment.time?_of_turn {m : Moment} {task : Task} (h : m.action = .turn task) :
    m.time? = some (m.spot.time task.rank) := by
  rw [time?, h]

/-- A task that does not rank above an earlier one begins at a later place. -/
theorem Moment.Before.place_lt {m m' : Moment} (h : m.Before m') {task task' : Task}
    (hturn : m.action = .turn task) (hturn' : m'.action = .turn task')
    (hrank : task'.rank ≤ task.rank) : m.spot.place < m'.spot.place := by
  have htime := h.2 _ (time?_of_turn hturn) _ (time?_of_turn hturn')
  rw [Spot.time, Spot.time] at htime
  exact Nat.lt_of_mul_lt_mul_left
    (Nat.lt_of_add_lt_add_right (Nat.lt_of_lt_of_le htime (Nat.add_le_add_left hrank _)))

theorem Moment.Inside.time_lt {m : Moment} (h : m.Inside ls) {t : Nat} (ht : m.time? = some t) :
    t < ranks * ls.length := by
  rw [time?] at ht
  split at ht
  next task haction =>
    cases ht
    have hmul : ranks * (m.spot.place + 1) ≤ ranks * ls.length :=
      Nat.mul_le_mul_left ranks h.place_lt
    have hrank := h.rank_lt task haction
    rw [Nat.mul_add, Nat.mul_one] at hmul
    rw [Spot.time]
    omega
  next => cases ht

theorem Orderly.bounded (h : Orderly ls s rank ms) : Bounded ls ms := by
  refine ⟨fun m hm => ⟨(h.inside m hm).place_lt, (h.inside m hm).read_lt⟩,
    fun m hm => (h.inside m hm).depth_le, h.rising.imp fun h => h.1, h.rising.imp ?_,
    h.rising.imp ?_, ?_⟩
  · intro m m' hbefore task hturn hturn'
    exact hbefore.place_lt hturn hturn' (Nat.le_refl _)
  · intro m m' hbefore task task' hturn hturn' hcall hloop
    exact hbefore.place_lt hturn hturn' (Nat.le_of_lt (Task.rank_lt_of_loops hcall hloop))
  · have hrising : (ms.filterMap Moment.time?).Pairwise (· < ·) :=
      List.pairwise_filterMap.mpr (h.rising.imp fun h => h.2)
    have hsubset : ms.filterMap Moment.time? ⊆ List.range (ranks * ls.length) := by
      intro t ht
      obtain ⟨m, hm, htime⟩ := List.mem_filterMap.mp ht
      exact List.mem_range.mpr ((h.inside m hm).time_lt htime)
    have hlength := (List.subperm_of_subset (hrising.imp Nat.ne_of_lt) hsubset).length_le
    rwa [List.length_range] at hlength

theorem Sealed.at_start (hls : Sealed ls) : ∃ l, At ls ⟨0, 0⟩ l := by
  obtain ⟨body, stop, rfl, -, -⟩ := hls
  have hlt : 0 < (body ++ [stop]).length := by simp
  exact ⟨_, List.getElem?_eq_getElem hlt, Nat.zero_le _⟩

theorem Sealed.place_of_eof (hls : Sealed ls) {l : Lexeme} (h : At ls s l) (hl : l.kind = .eof) :
    s.place = ls.length - 1 := by
  obtain ⟨body, stop, rfl, -, hbody⟩ := hls
  have hlt := h.place_lt
  rw [List.length_append, List.length_singleton] at hlt ⊢
  by_contra hne
  have hmem : l ∈ body := by
    refine List.mem_of_getElem? (i := s.place) ?_
    rw [← h.found, List.getElem?_append_left (by omega)]
  exact hbody l hmem hl

theorem expression_tracks (hls : Sealed ls) (text : String) {fuel : Nat}
    (hfuel : fuelFor ls ≤ fuel) :
    Tracks ls ⟨0, 0⟩ (Operator.levels + 1) (Operator.levels + 1)
      (fun e s e' => e' = e ∧ s = ⟨ls.length - 1, 0⟩) (Walk.expression text fuel)
      (parseLexemes text ls) := by
  obtain ⟨l, hl⟩ := hls.at_start
  have hcurrent : (Cursor.mk ls 0).current = l := hl.current_eq
  rw [Walk.expression, parseLexemes]
  dsimp only
  rw [hcurrent]
  refine .current hl ?_
  by_cases hempty : l.kind = .eof
  · rw [if_pos hempty, if_pos hempty]
    exact .fails _ l
  · rw [if_neg hempty, if_neg hempty]
    have hlevels : Operator.levels = 6 := rfl
    have hleft : Spot.left ls ⟨0, 0⟩ = ls.length := rfl
    rw [fuelFor] at hfuel
    have hbinary : Tracks ls ⟨0, 0⟩ (Operator.levels + 1) (Operator.levels + 1) (Lands ls 1 0)
        (Walk.binary text fuel 0) (parseBinary text (fuelFor ls) 0 ⟨ls, 0⟩) :=
      (tracksAt hls text fuel).binary hl (Nat.zero_le _) (by omega) (by rw [fuelFor]; omega)
    refine hbinary.bind fun e s' _ he => ?_
    obtain ⟨m, hm⟩ := he.at (Nat.zero_le _)
    obtain ⟨rfl, -, -, hdepth⟩ := he
    dsimp only
    rw [hm.current_eq]
    refine .current hm ?_
    by_cases hend : m.kind = .eof
    · rw [if_pos hend, if_pos hend]
      refine .of_pure ⟨rfl, ?_⟩ (Nat.le_refl _)
      rw [← hls.place_of_eof hm hend]
      exact congrArg (Spot.mk s'.place) hdepth
    · rw [if_neg hend, if_neg hend]
      exact .fails _ m

/-- An accepted list is read lexeme by lexeme: the cursor has moved once for each but the end
mark. -/
theorem countP_advance_expression (hls : Sealed ls) {text : String} {fuel : Nat}
    (hfuel : fuelFor ls ≤ fuel) {e : Expr} (he : parseLexemes text ls = .ok e) :
    ((Walk.expression text fuel ls ⟨0, 0⟩).moments.countP fun m => m.action = .advance) =
      ls.length - 1 := by
  have hmatches := (expression_tracks hls text hfuel).result
  rw [he] at hmatches
  obtain ⟨_, _, hresult, ⟨rfl, rfl⟩, -⟩ := hmatches.exists_of_ok
  have hplace := ((Walk.accounted_expression text fuel).reached hresult).1
  rw [Nat.zero_add] at hplace
  exact hplace.symm

/-! ## The count of open parentheses and negations -/

section Depth

open Outcome

variable {text : String} {fuel : Nat}

def Keeps {α : Type} (depth : Nat) (x : Except Failure (α × Cursor)) : Prop :=
  Meets (fun r => r.2.depth = depth) (fun _ => True) x

theorem keeps_problemAt {α : Type} (depth : Nat) (problem : Problem) (l : Lexeme) :
    Keeps depth (problemAt text problem l : Except Failure (α × Cursor)) := trivial

theorem depth_advance (c : Cursor) : c.advance.depth = c.depth := by
  obtain ⟨_ | ⟨l, rest⟩, depth⟩ := c
  · rfl
  · rw [Cursor.advance]
    dsimp only
    split <;> rfl

theorem enter_meets (l : Lexeme) (c : Cursor) :
    Meets (fun inner => inner.depth = c.depth + 1) (fun _ => True) (enter text l c) := by
  rw [enter]
  split
  · trivial
  · rfl

theorem meets_any {α : Type} (x : Except Failure α) :
    Meets (fun _ => True) (fun _ => True) x := by
  cases x <;> trivial

structure KeepsAt (text : String) (fuel : Nat) : Prop where
  binary : ∀ level c, Keeps c.depth (parseBinary text fuel level c)
  chain : ∀ level left c, Keeps c.depth (parseChain text fuel level left c)
  unary : ∀ c, Keeps c.depth (parseUnary text fuel c)
  primary : ∀ c, Keeps c.depth (parsePrimary text fuel c)

theorem binary_keeps (ih : KeepsAt text fuel) (level : Nat) (c : Cursor) :
    Keeps c.depth (parseBinary text (fuel + 1) level c) := by
  rw [parseBinary]
  split
  · exact ih.unary c
  · refine (ih.binary (level + 1) c).bind fun left hleft => ?_
    rw [← hleft]
    exact ih.chain level left.1 left.2

theorem chain_keeps (ih : KeepsAt text fuel) (level : Nat) (left : Expr) (c : Cursor) :
    Keeps c.depth (parseChain text (fuel + 1) level left c) := by
  rw [parseChain]
  split
  · rfl
  · next op _ =>
    refine (ih.binary (level + 1) c.advance).bind fun right hright => ?_
    rw [← depth_advance c, ← hright]
    exact ih.chain level _ right.2

theorem unary_keeps (ih : KeepsAt text fuel) (c : Cursor) :
    Keeps c.depth (parseUnary text (fuel + 1) c) := by
  rw [parseUnary]
  split
  · refine (enter_meets c.current c.advance).bind fun inner hinner => ?_
    refine (ih.unary inner).bind fun operand hoperand => ?_
    show operand.2.depth - 1 = c.depth
    rw [hoperand, hinner, depth_advance]
    rfl
  · exact ih.primary c

theorem path_keeps (text : String) (c : Cursor) : Keeps c.depth (parsePathAt text c) := by
  rw [parsePathAt]
  split
  · exact (meets_any _).bind fun r _ => rfl
  · trivial

theorem primary_keeps (ih : KeepsAt text fuel) (c : Cursor) :
    Keeps c.depth (parsePrimary text (fuel + 1) c) := by
  rw [parsePrimary]
  dsimp only
  split
  · exact (meets_any _).bind fun n _ => depth_advance c
  split
  · exact (meets_any _).bind fun n _ => (depth_advance _).trans (depth_advance c)
  split
  · exact depth_advance c
  split
  · split
    · exact depth_advance c
    · exact (path_keeps text c).bind fun p hp => hp
  split
  · refine (enter_meets c.current c.advance).bind fun inner hinner => ?_
    refine (ih.binary 0 inner).bind fun e he => ?_
    split
    · show e.2.advance.depth - 1 = c.depth
      rw [depth_advance, he, hinner, depth_advance]
      rfl
    · exact keeps_problemAt _ _ _
  split
  · exact keeps_problemAt _ _ _
  · exact keeps_problemAt _ _ _

theorem keepsAt (text : String) (fuel : Nat) : KeepsAt text fuel := by
  induction fuel with
  | zero => exact ⟨fun _ _ => trivial, fun _ _ _ => trivial, fun _ => trivial, fun _ => trivial⟩
  | succ fuel ih =>
    exact ⟨binary_keeps ih, chain_keeps ih, unary_keeps ih, primary_keeps ih⟩

theorem Keeps.of_eq_ok {α : Type} {depth : Nat} {x : Except Failure (α × Cursor)} {a : α}
    {c : Cursor} (h : Keeps depth x) (hx : x = .ok (a, c)) : c.depth = depth := by
  rw [hx] at h
  exact h

end Depth

/-- The parser comes to an end on every list of lexemes that ends in its only end mark.  A walk by
places that does what the parser does asks for no lexeme outside the list and is not cut off by the
fuel that the parser has: it gives the same expression, with the cursor at the end mark, or fails in
the same way, and so it does for a path alone.  Meanwhile its cursor never moves back and never
passes the end mark, a call or a turn of a loop comes again only behind a consumed lexeme, and the
count of open parentheses and negations goes at most one beyond the limit.  A function that returns
leaves that count as it found it.  What is noted on a walk accounts for every spot that it comes
to. -/
theorem parser_progress {ls : List Lexeme} (hls : Sealed ls) (text : String) :
    (∀ fuel, fuelFor ls ≤ fuel →
      Bounded ls (Walk.expression text fuel ls ⟨0, 0⟩).moments ∧
      Matches (fun e s e' => e' = e ∧ s = ⟨ls.length - 1, 0⟩)
        (Walk.expression text fuel ls ⟨0, 0⟩).result (parseLexemes text ls) ∧
      Bounded ls (Walk.path text fuel ls ⟨0, 0⟩).moments ∧
      Matches (Lands ls 1 0) (Walk.path text fuel ls ⟨0, 0⟩).result
        (parsePathAt text ⟨ls, 0⟩)) ∧
    (∀ fuel c e c',
      (∀ level, parseBinary text fuel level c = .ok (e, c') → c'.depth = c.depth) ∧
      (parseUnary text fuel c = .ok (e, c') → c'.depth = c.depth) ∧
      (parsePrimary text fuel c = .ok (e, c') → c'.depth = c.depth)) ∧
    ∀ fuel, (Walk.expression text fuel).Accounted ∧ (Walk.path text fuel).Accounted := by
  refine ⟨fun fuel hfuel => ?_, fun fuel c e c' => ?_, fun fuel => ?_⟩
  · obtain ⟨l, hl⟩ := hls.at_start
    have hexpression := expression_tracks hls text hfuel
    have hleft : Spot.left ls ⟨0, 0⟩ ≤ fuel := by
      rw [fuelFor] at hfuel
      rw [Spot.left]
      omega
    have hpath : Tracks ls ⟨0, 0⟩ _ _ (Lands ls 1 0) (Walk.path text fuel)
        (parsePathAt text ⟨ls, 0⟩) := path_tracks hls hl hleft
    exact ⟨hexpression.orderly.bounded, hexpression.result.mono fun _ _ _ h => h.1,
      hpath.orderly.bounded, hpath.result.mono fun _ _ _ h => h.1⟩
  · have hkeeps := keepsAt text fuel
    exact ⟨fun level h => (hkeeps.binary level c).of_eq_ok h, fun h => (hkeeps.unary c).of_eq_ok h,
      fun h => (hkeeps.primary c).of_eq_ok h⟩
  · exact ⟨Walk.accounted_expression text fuel, Walk.accounted_path text fuel⟩

theorem sealed_of_scan {text : String} (h : Lexeme.scan text = .ok ls) : Sealed ls := by
  obtain ⟨body, stop, rfl, hstop, hfound⟩ := Lexeme.scan_eq_ok h
  exact ⟨body, stop, rfl, hstop, fun l hl => (hfound l hl).kind_ne_eof⟩

/-- Two groups beside each other, one of them negated. -/
theorem parser_progress_groups : ∃ ls e, Lexeme.scan "(a) + !(b)" = .ok ls ∧ Sealed ls ∧
    fuelFor ls ≤ 100 ∧ Bounded ls (Walk.expression "(a) + !(b)" 100 ls ⟨0, 0⟩).moments ∧
    (Walk.expression "(a) + !(b)" 100 ls ⟨0, 0⟩).result = .ok (e, ⟨8, 0⟩) := by
  have hscan : Lexeme.scan "(a) + !(b)" =
      .ok [⟨.punct, "(", 0⟩, ⟨.name, "a", 1⟩, ⟨.punct, ")", 2⟩, ⟨.operator, "+", 4⟩,
        ⟨.operator, "!", 6⟩, ⟨.punct, "(", 7⟩, ⟨.name, "b", 8⟩, ⟨.punct, ")", 9⟩,
        ⟨.eof, "", 10⟩] := rfl
  have hls := sealed_of_scan hscan
  obtain ⟨hbounded, hmatches, -⟩ := (parser_progress hls "(a) + !(b)").1 100 (by decide)
  obtain ⟨e, he⟩ : ∃ e, parseLexemes "(a) + !(b)" [⟨.punct, "(", 0⟩, ⟨.name, "a", 1⟩,
      ⟨.punct, ")", 2⟩, ⟨.operator, "+", 4⟩, ⟨.operator, "!", 6⟩, ⟨.punct, "(", 7⟩,
      ⟨.name, "b", 8⟩, ⟨.punct, ")", 9⟩, ⟨.eof, "", 10⟩] = .ok e := ⟨_, rfl⟩
  rw [he] at hmatches
  obtain ⟨_, _, hresult, rfl, rfl⟩ := hmatches.exists_of_ok
  exact ⟨_, _, hscan, hls, by decide, hbounded, hresult⟩

end Expr
end Quill
