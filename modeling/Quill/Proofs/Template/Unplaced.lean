import Quill.Proofs.Template.Moves
import Quill.Proofs.Template.Renderings
import Quill.Proofs.Template.Seams

/-!
Templates without the places of their tokens.

A token keeps its kind, its contents and its line when its place is forgotten, and the parser looks
at nothing else.  So tokens without places are built into the tree, or refused with the problem,
that those with places are, and what is built or refused differs in the places alone.
-/

namespace Quill

open Node

/-! ## Forgetting places -/

namespace Node

theorem mapTokensOf_eq_map (f : Token → Token) (nodes : List Node) :
    mapTokensOf f nodes = nodes.map (mapTokens f) := by
  induction nodes with
  | nil => rfl
  | cons n rest ih => rw [mapTokensOf, ih, List.map_cons]

theorem mapTokensOf_reverse (f : Token → Token) (nodes : List Node) :
    mapTokensOf f nodes.reverse = (mapTokensOf f nodes).reverse := by
  rw [mapTokensOf_eq_map, mapTokensOf_eq_map, List.map_reverse]

theorem mapTokensOfArms_append (f : Token → Token) (front back : List Arm) :
    mapTokensOfArms f (front ++ back) = mapTokensOfArms f front ++ mapTokensOfArms f back := by
  induction front with
  | nil => rfl
  | cons arm rest ih =>
    obtain ⟨condition, body⟩ := arm
    rw [List.cons_append, mapTokensOfArms, mapTokensOfArms, ih, List.cons_append]

end Node

namespace Template

def Failure.unplaced : Failure → Failure
  | .malformed problem token => .malformed problem token.unplaced
  | .longNumeral digits => .longNumeral digits

def Block.unplaced : Block → Block
  | .loop t name items => .loop t.unplaced name items
  | .choice t finished condition =>
    .choice t.unplaced (mapTokensOfArms Token.unplaced finished) condition

def Frame.unplaced (f : Frame) : Frame := ⟨f.block.unplaced, mapTokensOf Token.unplaced f.before⟩

def Builder.unplaced (b : Builder) : Builder :=
  ⟨mapTokensOf Token.unplaced b.nodes, b.frames.map Frame.unplaced⟩

theorem Block.token_unplaced (block : Block) : block.unplaced.token = block.token.unplaced := by
  cases block <;> rfl

theorem Block.command_unplaced (block : Block) : block.unplaced.command = block.command := by
  cases block <;> rfl

theorem Block.expected_unplaced (block : Block) : block.unplaced.expected = block.expected := by
  cases block with
  | loop t name items => rfl
  | choice t finished condition => cases condition <;> rfl

theorem Block.close_unplaced (block : Block) (body : List Node) :
    block.unplaced.close (mapTokensOf Token.unplaced body) =
      mapTokens Token.unplaced (block.close body) := by
  cases block with
  | loop t name items => rw [Block.unplaced, Block.close, Block.close, mapTokens]
  | choice t finished condition =>
    rw [Block.unplaced, Block.close, Block.close, mapTokens, mapTokensOfArms_append]
    rfl

namespace Builder

theorem body_unplaced (b : Builder) : b.unplaced.body = mapTokensOf Token.unplaced b.body :=
  (mapTokensOf_reverse Token.unplaced b.nodes).symm

theorem expected_unplaced (b : Builder) : b.unplaced.expected = b.expected := by
  obtain ⟨nodes, _ | ⟨f, rest⟩⟩ := b
  · rfl
  · exact f.block.expected_unplaced

/-! ## Steps of the parser -/

variable (b : Builder) (t : Token)

theorem unexpected_unplaced : b.unplaced.unexpected t.unplaced = b.unexpected t := by
  rw [unexpected, expected_unplaced]
  rfl

theorem readLoop_unplaced : readLoop t.unplaced = (readLoop t).map Block.unplaced := by
  have hparts : loopParts? t.unplaced.contents.toList = loopParts? t.contents.toList := rfl
  rw [readLoop, readLoop, hparts]
  cases loopParts? t.contents.toList with
  | none => rfl
  | some parts =>
    show (readExpr parts.2 >>= _) = Except.map _ (readExpr parts.2 >>= _)
    cases readExpr parts.2 <;> rfl

theorem close_unplaced (command : String) :
    b.unplaced.close command t.unplaced = (b.close command t).map Builder.unplaced := by
  have hbare : refuseArguments t.unplaced = refuseArguments t := rfl
  rw [close, close, hbare]
  cases refuseArguments t with
  | error r => rfl
  | ok u =>
    obtain ⟨nodes, _ | ⟨f, rest⟩⟩ := b
    · exact congrArg Except.error (unexpected_unplaced _ t)
    · have hcommand : f.unplaced.block.command = f.block.command := f.block.command_unplaced
      show (if f.unplaced.block.command = command then _ else _) =
        Except.map Builder.unplaced (if f.block.command = command then _ else _)
      rw [hcommand]
      by_cases h : f.block.command = command
      · rw [if_pos h, if_pos h, body_unplaced]
        show Except.ok (Builder.mk (f.block.unplaced.close _ :: _) _) = _
        rw [Block.close_unplaced]
        rfl
      · rw [if_neg h, if_neg h, unexpected_unplaced]
        rfl

/-- The choice that takes another branch, its tokens without their places. -/
theorem choiceToExtend_unplaced :
    b.unplaced.choiceToExtend t.unplaced =
      (b.choiceToExtend t).map fun (opener, arms, before, rest) =>
        (opener.unplaced, mapTokensOfArms Token.unplaced arms, mapTokensOf Token.unplaced before,
          rest.map Frame.unplaced) := by
  obtain ⟨nodes, _ | ⟨⟨_ | ⟨opener, finished, _ | condition⟩, before⟩, rest⟩⟩ := b
  · exact congrArg Except.error (unexpected_unplaced _ t)
  · exact congrArg Except.error (unexpected_unplaced _ t)
  · rfl
  · have hbody := body_unplaced
      ⟨nodes, ⟨.choice opener finished (some condition), before⟩ :: rest⟩
    show Except.ok (_, _ ++ [Arm.mk _ (Builder.body _)], _) = Except.ok (_, _, _)
    rw [mapTokensOfArms_append, hbody]
    rfl

/-- A block tag does the same without places. -/
theorem block_unplaced :
    b.unplaced.block t.unplaced = (b.block t).map Builder.unplaced := by
  have hcommand : t.unplaced.command = t.command := rfl
  have hcondition : readCondition t.unplaced = readCondition t := rfl
  have hbare : refuseArguments t.unplaced = refuseArguments t := rfl
  by_cases hfor : t.command = "for"
  · rw [block_for hfor, block_for (hcommand.trans hfor), readLoop_unplaced]
    cases readLoop t <;> rfl
  by_cases hendfor : t.command = "endfor"
  · rw [block_endfor hendfor, block_endfor (hcommand.trans hendfor), close_unplaced]
  by_cases hif : t.command = "if"
  · rw [block_if hif, block_if (hcommand.trans hif), hcondition]
    cases readCondition t <;> rfl
  by_cases helif : t.command = "elif"
  · rw [block_elif helif, block_elif (hcommand.trans helif), choiceToExtend_unplaced, hcondition]
    cases b.choiceToExtend t with
    | error r => rfl
    | ok extended => cases readCondition t <;> rfl
  by_cases helse : t.command = "else"
  · rw [block_else helse, block_else (hcommand.trans helse), choiceToExtend_unplaced, hbare]
    cases refuseArguments t with
    | error r => rfl
    | ok u => cases b.choiceToExtend t <;> rfl
  by_cases hendif : t.command = "endif"
  · rw [block_endif hendif, block_endif (hcommand.trans hendif), close_unplaced]
  simp only [block, hcommand, hfor, hendfor, hif, helif, helse, hendif, if_false,
    expected_unplaced]
  split
  · rfl
  · rfl

theorem output_unplaced :
    b.unplaced.output t.unplaced = (b.output t).map Builder.unplaced := by
  have hcontents : t.unplaced.contents = t.contents := rfl
  rw [output, output, hcontents]
  split
  · rfl
  · cases Pipeline.read t.contents <;> rfl

theorem attach_unplaced {α β : Type} (f : α → β) (x : Except Refusal α) :
    attach t.unplaced (x.map f) = Outcome.image Failure.unplaced f (attach t x) := by
  cases x with
  | ok a => rfl
  | error r => cases r <;> rfl

/-- A token does the same without places. -/
theorem step_unplaced :
    b.unplaced.step t.unplaced = Outcome.image Failure.unplaced Builder.unplaced (b.step t) := by
  have hkind : t.unplaced.kind = t.kind := rfl
  rw [step, step, hkind]
  cases t.kind with
  | text => rfl
  | output =>
    dsimp only
    rw [output_unplaced, attach_unplaced]
  | block =>
    dsimp only
    rw [block_unplaced, attach_unplaced]

theorem foldlM_unplaced (tokens : List Token) :
    (tokens.map Token.unplaced).foldlM step b.unplaced =
      Outcome.image Failure.unplaced Builder.unplaced (tokens.foldlM step b) := by
  induction tokens generalizing b with
  | nil => rfl
  | cons t rest ih =>
    rw [List.map_cons, List.foldlM_cons, List.foldlM_cons, step_unplaced]
    exact Outcome.image_bind ih (b.step t)

theorem finish_unplaced :
    b.unplaced.finish = Outcome.image Failure.unplaced (mapTokensOf Token.unplaced) b.finish := by
  obtain ⟨nodes, _ | ⟨f, rest⟩⟩ := b
  · exact congrArg Except.ok (body_unplaced ⟨nodes, []⟩)
  · show Except.error (Failure.malformed (.unclosed f.block.unplaced.token.line
        f.block.unplaced.command f.block.unplaced.expected) f.block.unplaced.token) = _
    rw [Block.token_unplaced, Block.command_unplaced, Block.expected_unplaced]
    rfl

end Builder

/-- Tokens without places are parsed as those with places are. -/
theorem parseTokens_unplaced (tokens : List Token) :
    parseTokens (tokens.map Token.unplaced) =
      Outcome.image Failure.unplaced (mapTokensOf Token.unplaced) (parseTokens tokens) := by
  have hfold := Builder.foldlM_unplaced .start tokens
  have hstart : Builder.start.unplaced = .start := rfl
  rw [parseTokens, parseTokens, ← hstart, hfold]
  exact Outcome.image_bind Builder.finish_unplaced _

end Template

/-! ## Templates without places -/

def RenderFailure.unplaced : RenderFailure → RenderFailure
  | .fault f => .fault f
  | .filter name cause token => .filter name cause (token.map Token.unplaced)
  | .tooDeep limit block token => .tooDeep limit block (token.map Token.unplaced)

/-- No message says where a token stands. -/
theorem RenderFailure.message_unplaced (f : RenderFailure) : f.unplaced.message = f.message := by
  cases f <;> rfl

theorem RenderFailure.moved_unplaced (f : RenderFailure) :
    f.moved Token.unplaced 0 = f.unplaced := by
  cases f with
  | fault f => rfl
  | filter name cause token => rfl
  | tooDeep limit block token =>
    rw [moved, Int.natCast_zero, Int.add_zero]
    rfl

def Report.unplaced {ε : Type} (forget : ε → ε) (r : Report ε) : Report ε :=
  ⟨forget r.failure, none⟩

def RenderError.unplaced : RenderError → RenderError
  | .notAMap e => .notAMap e
  | .failed report => .failed (report.unplaced RenderFailure.unplaced)

namespace Template

def unplaced (t : Template) : Template :=
  { t with nodes := mapTokensOf Token.unplaced t.nodes, located := false }

/-- What is compiled without places is what is compiled with places, which are then forgotten. -/
theorem compile_unplaced (g : Setting) (name : Option String) (source : String) :
    compile g false name source =
      Outcome.image (Report.unplaced Failure.unplaced) unplaced (compile g true name source) := by
  have htokens : Token.tokens false source = (Token.tokens true source).map Token.unplaced :=
    Token.lex_eq_unplaced source
  rw [compile, compile, htokens, parseTokens_unplaced]
  cases parseTokens (Token.tokens true source) with
  | ok nodes => rfl
  | error f => cases f <;> rfl

theorem reportRender_unplaced (t : Template) (f : RenderFailure) :
    t.unplaced.reportRender f.unplaced = (t.reportRender f).unplaced RenderFailure.unplaced := by
  rw [Report.unplaced, failure_reportRender, reportRender]
  cases f.unplaced.token <;> rfl

/-- A template without places does what it does with them, and a failure is then the same but for
its place. -/
theorem render_unplaced (t : Template) (context : Value) :
    t.unplaced.render context = ⟨(t.render context).events,
      (t.render context).result.mapError RenderError.unplaced⟩ := by
  rw [render, render]
  cases Scope.ofValue context with
  | error e => rfl
  | ok s =>
    have hmoved := renderAll_mapTokensOf Token.keeps_unplaced s t.nodes (g := t.setting)
    have hfurther : t.unplaced.renderIn s 0 =
        (0, (t.renderIn s 0).2.moved Token.unplaced 0) := hmoved.further 0
    dsimp only
    rw [hfurther]
    rcases (t.renderIn s 0).2 with ⟨events, f | out⟩
    · show (⟨events, .error (.failed (t.unplaced.reportRender (f.moved Token.unplaced 0)))⟩ :
        Trace RenderError String) = ⟨events, .error (.failed _)⟩
      rw [RenderFailure.moved_unplaced, reportRender_unplaced]
    · rfl

end Template
end Quill
