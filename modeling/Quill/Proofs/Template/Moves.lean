import Quill.Proofs.Template.Tags

/-!
What the parser of templates does with one token.  `Builder.Moves` lists the moves, each with the
form that the tag must have and the block that must be open, and a step of the parser on a trimmed
token is such a move.  A run is a sequence of moves.
-/

namespace Quill
namespace Template

theorem attach_eq_ok_iff {α : Type} {t : Token} {x : Except Refusal α} {a : α} :
    attach t x = .ok a ↔ x = .ok a := by
  cases x <;> simp [attach]

/-! ## Block tags -/

namespace Builder

variable {b b' : Builder} {t : Token}

theorem block_for (h : t.command = "for") :
    b.block t = (do return b.openBlock (← readLoop t)) := by
  simp only [block, h, if_true]

theorem block_endfor (h : t.command = "endfor") : b.block t = b.close "for" t := by
  simp only [block, h, String.reduceEq, reduceIte]

theorem block_if (h : t.command = "if") :
    b.block t = (do return b.openBlock (.choice t [] (some (← readCondition t)))) := by
  simp only [block, h, String.reduceEq, reduceIte]

theorem block_elif (h : t.command = "elif") : b.block t = (do
    let (opener, arms, before, rest) ← b.choiceToExtend t
    let condition ← readCondition t
    return ⟨[], ⟨.choice opener arms (some condition), before⟩ :: rest⟩) := by
  simp only [block, h, String.reduceEq, reduceIte]

theorem block_else (h : t.command = "else") : b.block t = (do
    refuseArguments t
    let (opener, arms, before, rest) ← b.choiceToExtend t
    return ⟨[], ⟨.choice opener arms none, before⟩ :: rest⟩) := by
  simp only [block, h, String.reduceEq, reduceIte]

theorem block_endif (h : t.command = "endif") : b.block t = b.close "if" t := by
  simp only [block, h, String.reduceEq, reduceIte]

/-- No other word is a block tag. -/
theorem block_unknown
    (h : t.command ∉ ["for", "endfor", "if", "elif", "else", "endif"]) (b' : Builder) :
    b.block t ≠ .ok b' := by
  simp only [List.mem_cons, List.not_mem_nil, or_false, not_or] at h
  obtain ⟨hfor, hendfor, hif, helif, helse, hendif⟩ := h
  simp only [block, hfor, hendfor, hif, helif, helse, hendif, if_false]
  by_cases hempty : t.command = ""
  · rw [if_pos hempty]
    intro h
    cases h
  · rw [if_neg hempty]
    intro h
    cases h

theorem close_eq_ok_iff {command : String} :
    b.close command t = .ok b' ↔ refuseArguments t = .ok () ∧
      ∃ f rest, b.frames = f :: rest ∧ f.block.command = command ∧
        b' = ⟨f.block.close b.body :: f.before, rest⟩ := by
  rw [close, Outcome.bind_eq_ok]
  constructor
  · rintro ⟨⟨⟩, hbare, h⟩
    refine ⟨hbare, ?_⟩
    cases hframes : b.frames with
    | nil =>
      rw [hframes] at h
      cases h
    | cons f rest =>
      rw [hframes] at h
      by_cases hcommand : f.block.command = command
      · dsimp only at h
        rw [if_pos hcommand] at h
        cases h
        exact ⟨f, rest, rfl, hcommand, rfl⟩
      · dsimp only at h
        rw [if_neg hcommand] at h
        cases h
  · rintro ⟨hbare, f, rest, hframes, hcommand, rfl⟩
    refine ⟨(), hbare, ?_⟩
    rw [hframes]
    dsimp only
    rw [if_pos hcommand]
    rfl

theorem choiceToExtend_eq_ok_iff {extended : Token × List Arm × List Node × List Frame} :
    b.choiceToExtend t = .ok extended ↔
      ∃ opener finished condition before rest,
        b.frames = ⟨.choice opener finished (some condition), before⟩ :: rest ∧
        extended = (opener, finished ++ [.mk (some condition) b.body], before, rest) := by
  rw [choiceToExtend]
  constructor
  · rcases b.frames with _ | ⟨⟨_ | ⟨opener, finished, _ | condition⟩, before⟩, rest⟩
    · intro h
      cases h
    · intro h
      cases h
    · intro h
      cases h
    · intro h
      cases h
      exact ⟨opener, finished, condition, before, rest, rfl, rfl⟩
  · rintro ⟨opener, finished, condition, before, rest, hframes, rfl⟩
    rw [hframes]

/-! ## Moves -/

inductive Moves : Builder → Token → Builder → Prop
  | text {b : Builder} {t : Token} : t.kind = .text → Moves b t (b.add (.text t))
  | output {b : Builder} {t : Token} {p : Pipeline} :
      t.IsOutput p → Moves b t (b.add (.output t p))
  | openLoop {b : Builder} {t : Token} {name : String} {items : Expr} :
      t.IsLoop name items → Moves b t (b.openBlock (.loop t name items))
  | openChoice {b : Builder} {t : Token} {condition : Expr} :
      t.IsCondition "if" condition → Moves b t (b.openBlock (.choice t [] (some condition)))
  | closeLoop {nodes before : List Node} {rest : List Frame} {opener t : Token} {name : String}
      {items : Expr} :
      t.IsBare "endfor" →
      Moves ⟨nodes, ⟨.loop opener name items, before⟩ :: rest⟩ t
        ⟨.loop opener name items nodes.reverse :: before, rest⟩
  | closeChoice {nodes before : List Node} {rest : List Frame} {opener t : Token}
      {finished : List Arm} {condition : Option Expr} :
      t.IsBare "endif" →
      Moves ⟨nodes, ⟨.choice opener finished condition, before⟩ :: rest⟩ t
        ⟨.choice opener (finished ++ [.mk condition nodes.reverse]) :: before, rest⟩
  | condition {nodes before : List Node} {rest : List Frame} {opener t : Token}
      {finished : List Arm} {condition next : Expr} :
      t.IsCondition "elif" next →
      Moves ⟨nodes, ⟨.choice opener finished (some condition), before⟩ :: rest⟩ t
        ⟨[], ⟨.choice opener (finished ++ [.mk (some condition) nodes.reverse]) (some next),
          before⟩ :: rest⟩
  | default {nodes before : List Node} {rest : List Frame} {opener t : Token}
      {finished : List Arm} {condition : Expr} :
      t.IsBare "else" →
      Moves ⟨nodes, ⟨.choice opener finished (some condition), before⟩ :: rest⟩ t
        ⟨[], ⟨.choice opener (finished ++ [.mk (some condition) nodes.reverse]) none,
          before⟩ :: rest⟩

/-- Literal text only adds itself. -/
theorem Moves.eq_of_text {b b' : Builder} {t : Token} (h : Moves b t b') (ht : t.kind = .text) :
    b' = b.add (.text t) := by
  have houtput : t.kind ≠ .output := by simp [ht]
  have hblock : t.kind ≠ .block := by simp [ht]
  cases h with
  | text => rfl
  | output hout => exact absurd hout.1 houtput
  | openLoop hloop => exact absurd hloop.1 hblock
  | openChoice hcondition => exact absurd hcondition.1 hblock
  | closeLoop hbare => exact absurd hbare.1 hblock
  | closeChoice hbare => exact absurd hbare.1 hblock
  | condition hcondition => exact absurd hcondition.1 hblock
  | default hbare => exact absurd hbare.1 hblock

theorem moves_of_block (ht : t.Tidy) (hkind : t.kind = .block) (h : b.block t = .ok b') :
    Moves b t b' := by
  have bare : ∀ {word}, Text.Solid word.toList → t.command = word →
      refuseArguments t = .ok () → t.IsBare word :=
    fun hword hcommand hbare => (Token.isBare_iff hkind hword).mpr ⟨hcommand, hbare⟩
  have condition : ∀ {word e}, Text.Solid word.toList → t.command = word →
      readCondition t = .ok e → t.IsCondition word e :=
    fun hword hcommand hread => (Token.isCondition_iff ht hkind hword).mpr ⟨hcommand, hread⟩
  by_cases hfor : t.command = "for"
  · rw [block_for hfor] at h
    obtain ⟨block, hread, h⟩ := Outcome.bind_eq_ok.mp h
    cases h
    obtain ⟨name, items, rfl, hloop⟩ := (Token.isLoop_iff ht hkind).mpr ⟨hfor, hread⟩
    exact .openLoop hloop
  by_cases hendfor : t.command = "endfor"
  · rw [block_endfor hendfor] at h
    obtain ⟨hbare, ⟨block, before⟩, rest, hframes, hcommand, rfl⟩ := close_eq_ok_iff.mp h
    obtain ⟨nodes, frames⟩ := b
    obtain rfl : frames = _ := hframes
    cases block with
    | loop opener name items => exact .closeLoop (bare (by decide) hendfor hbare)
    | choice opener finished condition =>
      exact absurd (show "if" = "for" from hcommand) (by decide)
  by_cases hif : t.command = "if"
  · rw [block_if hif] at h
    obtain ⟨e, hread, h⟩ := Outcome.bind_eq_ok.mp h
    cases h
    exact .openChoice (condition (by decide) hif hread)
  by_cases helif : t.command = "elif"
  · rw [block_elif helif] at h
    obtain ⟨extended, hextend, h⟩ := Outcome.bind_eq_ok.mp h
    obtain ⟨opener, finished, e, before, rest, hframes, rfl⟩ :=
      choiceToExtend_eq_ok_iff.mp hextend
    obtain ⟨next, hread, h⟩ := Outcome.bind_eq_ok.mp h
    cases h
    obtain ⟨nodes, frames⟩ := b
    obtain rfl : frames = _ := hframes
    exact .condition (condition (by decide) helif hread)
  by_cases helse : t.command = "else"
  · rw [block_else helse] at h
    obtain ⟨⟨⟩, hbare, h⟩ := Outcome.bind_eq_ok.mp h
    obtain ⟨extended, hextend, h⟩ := Outcome.bind_eq_ok.mp h
    obtain ⟨opener, finished, e, before, rest, hframes, rfl⟩ :=
      choiceToExtend_eq_ok_iff.mp hextend
    cases h
    obtain ⟨nodes, frames⟩ := b
    obtain rfl : frames = _ := hframes
    exact .default (bare (by decide) helse hbare)
  by_cases hendif : t.command = "endif"
  · rw [block_endif hendif] at h
    obtain ⟨hbare, ⟨block, before⟩, rest, hframes, hcommand, rfl⟩ := close_eq_ok_iff.mp h
    obtain ⟨nodes, frames⟩ := b
    obtain rfl : frames = _ := hframes
    cases block with
    | loop opener name items => exact absurd (show "for" = "if" from hcommand) (by decide)
    | choice opener finished condition => exact .closeChoice (bare (by decide) hendif hbare)
  exact absurd h (block_unknown (by simp [hfor, hendfor, hif, helif, helse, hendif]) b')

theorem output_eq_ok_iff : b.output t = .ok b' ↔
    ∃ p, Pipeline.read t.contents = .ok p ∧ b' = b.add (.output t p) := by
  rw [output]
  by_cases hempty : t.contents = ""
  · have hread : (Pipeline.read "").toOption = none := rfl
    rw [if_pos hempty, hempty]
    constructor
    · intro h
      cases h
    · rintro ⟨p, hp, -⟩
      rw [hp] at hread
      cases hread
  · rw [if_neg hempty]
    cases Pipeline.read t.contents with
    | ok p => simp [eq_comm]
    | error f => simp

theorem step_of_block (hkind : t.kind = .block) : b.step t = .ok b' ↔ b.block t = .ok b' := by
  rw [step, hkind]
  exact attach_eq_ok_iff

theorem Moves.step (ht : t.Tidy) (h : Moves b t b') : b.step t = .ok b' := by
  cases h with
  | text hkind => rw [Builder.step, hkind]
  | output hout =>
    rw [Builder.step, hout.1]
    exact attach_eq_ok_iff.mpr (output_eq_ok_iff.mpr ⟨_, hout.2, rfl⟩)
  | openLoop hloop =>
    obtain ⟨hcommand, hread⟩ := (Token.isLoop_iff ht hloop.1).mp ⟨_, _, rfl, hloop⟩
    rw [step_of_block hloop.1, block_for hcommand, hread]
    rfl
  | openChoice hcondition =>
    obtain ⟨hcommand, hread⟩ := (Token.isCondition_iff ht hcondition.1 (by decide)).mp hcondition
    rw [step_of_block hcondition.1, block_if hcommand, hread]
    rfl
  | closeLoop hbare =>
    obtain ⟨hcommand, hread⟩ := (Token.isBare_iff hbare.1 (by decide)).mp hbare
    rw [step_of_block hbare.1, block_endfor hcommand, close_eq_ok_iff]
    exact ⟨hread, _, _, rfl, rfl, rfl⟩
  | closeChoice hbare =>
    obtain ⟨hcommand, hread⟩ := (Token.isBare_iff hbare.1 (by decide)).mp hbare
    rw [step_of_block hbare.1, block_endif hcommand, close_eq_ok_iff]
    exact ⟨hread, _, _, rfl, rfl, rfl⟩
  | condition hcondition =>
    obtain ⟨hcommand, hread⟩ := (Token.isCondition_iff ht hcondition.1 (by decide)).mp hcondition
    rw [step_of_block hcondition.1, block_elif hcommand, hread]
    rfl
  | default hbare =>
    obtain ⟨hcommand, hread⟩ := (Token.isBare_iff hbare.1 (by decide)).mp hbare
    rw [step_of_block hbare.1, block_else hcommand, hread]
    rfl

/-- A step of the parser on a trimmed token is a move. -/
theorem step_eq_ok_iff (ht : t.Tidy) : b.step t = .ok b' ↔ Moves b t b' := by
  refine ⟨fun h => ?_, Moves.step ht⟩
  cases hkind : t.kind with
  | text =>
    rw [step, hkind] at h
    cases h
    exact .text hkind
  | output =>
    rw [step, hkind] at h
    obtain ⟨p, hread, rfl⟩ := output_eq_ok_iff.mp (attach_eq_ok_iff.mp h)
    exact .output ⟨hkind, hread⟩
  | block => exact moves_of_block ht hkind ((step_of_block hkind).mp h)

/-! ## Runs -/

inductive Run : Builder → List Token → Builder → Prop
  | nil {b : Builder} : Run b [] b
  | cons {b c d : Builder} {t : Token} {tokens : List Token} :
      Moves b t c → Run c tokens d → Run b (t :: tokens) d

theorem Run.append {b c d : Builder} {front back : List Token} (h : Run b front c)
    (hback : Run c back d) : Run b (front ++ back) d := by
  induction h with
  | nil => exact hback
  | cons hmove _ ih => exact .cons hmove (ih hback)

theorem Run.of_append {b d : Builder} {front back : List Token} (h : Run b (front ++ back) d) :
    ∃ c, Run b front c ∧ Run c back d := by
  induction front generalizing b with
  | nil => exact ⟨b, .nil, h⟩
  | cons t rest ih =>
    cases h with
    | cons hmove hrun =>
      obtain ⟨c, hfront, hback⟩ := ih hrun
      exact ⟨c, .cons hmove hfront, hback⟩

theorem foldlM_eq_ok_iff {tokens : List Token} (ht : ∀ t ∈ tokens, t.Tidy) :
    tokens.foldlM step b = .ok b' ↔ Run b tokens b' := by
  induction tokens generalizing b with
  | nil =>
    rw [List.foldlM_nil]
    constructor
    · intro h
      cases h
      exact .nil
    · intro h
      cases h
      rfl
  | cons t rest ih =>
    rw [List.foldlM_cons, Outcome.bind_eq_ok]
    constructor
    · rintro ⟨c, hstep, h⟩
      exact .cons ((step_eq_ok_iff (ht t (List.mem_cons_self ..))).mp hstep)
        ((ih fun u hu => ht u (List.mem_cons_of_mem t hu)).mp h)
    · intro h
      cases h with
      | cons hmove hrun =>
        exact ⟨_, (step_eq_ok_iff (ht t (List.mem_cons_self ..))).mpr hmove,
          (ih fun u hu => ht u (List.mem_cons_of_mem t hu)).mpr hrun⟩

end Builder

end Template
end Quill
