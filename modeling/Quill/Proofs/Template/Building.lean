import Quill.Proofs.Template.Grammar
import Quill.Proofs.Template.Moves
import Quill.Template

/-!
The tokens of a template parse exactly when they derive from the grammar, and the tree is the
one of the derivation.

The invariant of a run is `Built`: the tokens read so far are cut at the open blocks, and between
two cuts stands what the grammar makes of the nodes kept there.  For the other direction a
derivation is run on a builder in any state.
-/

namespace Quill
namespace Template

/-! ## What has been built -/

/-- The tokens of an open block from its first tag to the list of nodes that it is filling. -/
inductive Opens : Block → List Token → Prop
  | loop {t : Token} {name : String} {items : Expr} :
      t.IsLoop name items → Opens (.loop t name items) [t]
  | choice {t : Token} {condition : Expr} :
      t.IsCondition "if" condition → Opens (.choice t [] (some condition)) [t]
  | condition {t next : Token} {finished : List Arm} {condition other : Expr}
      {opening inner : List Token} {body : List Node} :
      Opens (.choice t finished (some condition)) opening → Spells inner body →
      next.IsCondition "elif" other →
      Opens (.choice t (finished ++ [.mk (some condition) body]) (some other))
        (opening ++ inner ++ [next])
  | default {t next : Token} {finished : List Arm} {condition : Expr}
      {opening inner : List Token} {body : List Node} :
      Opens (.choice t finished (some condition)) opening → Spells inner body →
      next.IsBare "else" →
      Opens (.choice t (finished ++ [.mk (some condition) body]) none)
        (opening ++ inner ++ [next])

/-- A choice that is open becomes a node with the rest of the choice. -/
theorem Opens.spells {t : Token} {finished arms : List Arm} {condition : Expr}
    {opening inner more : List Token} {body : List Node}
    (h : Opens (.choice t finished (some condition)) opening) (hbody : Spells inner body)
    (harms : SpellsArms more arms) :
    Spells (opening ++ inner ++ more)
      [.choice t (finished ++ .mk (some condition) body :: arms)] := by
  -- By induction on the branches that are finished, the last of them being put back in front of
  -- the rest each time.
  generalize hblock : Block.choice t finished (some condition) = block at h
  induction h generalizing finished condition inner more body arms with
  | loop => cases hblock
  | choice ht =>
    cases hblock
    have hchoice := Spells.choice ht hbody harms .nil
    simpa using hchoice
  | condition _ hinner ht ih =>
    cases hblock
    have hchoice := ih hinner (.condition ht hbody harms) rfl
    simpa using hchoice
  | default => cases hblock

/-- An open block becomes a node with its closing tag. -/
theorem Opens.close_loop {t stop : Token} {name : String} {items : Expr}
    {opening inner : List Token} {body : List Node} (h : Opens (.loop t name items) opening)
    (hbody : Spells inner body) (hstop : stop.IsBare "endfor") :
    Spells (opening ++ inner ++ [stop]) [.loop t name items body] := by
  cases h with
  | loop ht =>
    have hloop := Spells.loop ht hbody hstop .nil
    simpa using hloop

theorem Opens.close_choice {t stop : Token} {finished : List Arm} {condition : Option Expr}
    {opening inner : List Token} {body : List Node}
    (h : Opens (.choice t finished condition) opening)
    (hbody : Spells inner body) (hstop : stop.IsBare "endif") :
    Spells (opening ++ inner ++ [stop]) [.choice t (finished ++ [.mk condition body])] := by
  cases condition with
  | some e => exact h.spells hbody (.close hstop)
  | none =>
    cases h with
    | default hprevious hinner ht =>
      have hchoice := hprevious.spells hinner (.default ht hbody hstop)
      simpa using hchoice

/-- The tokens that lead to open blocks and a list of nodes. -/
def Built : List Frame → List Token → List Node → Prop
  | [], tokens, nodes => Spells tokens nodes
  | f :: rest, tokens, nodes =>
    ∃ outer opening inner, tokens = outer ++ opening ++ inner ∧
      Built rest outer f.before.reverse ∧ Opens f.block opening ∧ Spells inner nodes

theorem Built.append {frames : List Frame} {tokens more : List Token} {nodes after : List Node}
    (h : Built frames tokens nodes) (hmore : Spells more after) :
    Built frames (tokens ++ more) (nodes ++ after) := by
  cases frames with
  | nil => exact Spells.append h hmore
  | cons f rest =>
    obtain ⟨outer, opening, inner, rfl, houter, hopens, hinner⟩ := h
    exact ⟨outer, opening, inner ++ more, by rw [List.append_assoc _ inner], houter, hopens,
      hinner.append hmore⟩

theorem Built.openBlock {b : Builder} {tokens : List Token} {t : Token} {block : Block}
    (h : Built b.frames tokens b.body) (hopens : Opens block [t]) :
    Built (b.openBlock block).frames (tokens ++ [t]) (b.openBlock block).body :=
  ⟨tokens, [t], [], (List.append_nil _).symm, h, hopens, .nil⟩

/-- The innermost block becomes a node when its last tag has been read. -/
theorem Built.close {f : Frame} {rest : List Frame} {tokens : List Token} {nodes : List Node}
    {t : Token} {n : Node} (h : Built (f :: rest) tokens nodes)
    (hclose : ∀ opening inner, Opens f.block opening → Spells inner nodes →
      Spells (opening ++ inner ++ [t]) [n]) :
    Built rest (tokens ++ [t]) (n :: f.before).reverse := by
  obtain ⟨outer, opening, inner, rfl, houter, hopens, hinner⟩ := h
  have hbuilt := houter.append (hclose opening inner hopens hinner)
  rw [List.reverse_cons]
  simpa only [List.append_assoc] using hbuilt

/-- The innermost block goes on to its next branch. -/
theorem Built.extend {f : Frame} {rest : List Frame} {tokens : List Token} {nodes : List Node}
    {t : Token} {block : Block} (h : Built (f :: rest) tokens nodes)
    (hextend : ∀ opening inner, Opens f.block opening → Spells inner nodes →
      Opens block (opening ++ inner ++ [t])) :
    Built (⟨block, f.before⟩ :: rest) (tokens ++ [t]) [] := by
  obtain ⟨outer, opening, inner, rfl, houter, hopens, hinner⟩ := h
  refine ⟨outer, opening ++ inner ++ [t], [], ?_, houter, hextend opening inner hopens hinner, .nil⟩
  simp only [List.append_assoc, List.append_nil]

/-- A move keeps what has been built in step with the tokens. -/
theorem Built.moves {b b' : Builder} {tokens : List Token} {t : Token}
    (h : Built b.frames tokens b.body) (hmove : Builder.Moves b t b') :
    Built b'.frames (tokens ++ [t]) b'.body := by
  -- One case for each kind of move: nodes are appended, blocks opened, closed or continued.
  cases hmove with
  | text hkind =>
    rw [Builder.body, Builder.add, List.reverse_cons]
    exact h.append (.text hkind .nil)
  | output hout =>
    rw [Builder.body, Builder.add, List.reverse_cons]
    exact h.append (.output hout .nil)
  | openLoop hloop => exact h.openBlock (.loop hloop)
  | openChoice hcondition => exact h.openBlock (.choice hcondition)
  | closeLoop hbare => exact h.close fun _ _ hopens hinner => hopens.close_loop hinner hbare
  | closeChoice hbare => exact h.close fun _ _ hopens hinner => hopens.close_choice hinner hbare
  | condition hcondition =>
    exact h.extend fun _ _ hopens hinner => .condition hopens hinner hcondition
  | default hbare => exact h.extend fun _ _ hopens hinner => .default hopens hinner hbare

theorem Built.run {b b' : Builder} {tokens more : List Token}
    (h : Built b.frames tokens b.body) (hrun : Builder.Run b more b') :
    Built b'.frames (tokens ++ more) b'.body := by
  induction hrun generalizing tokens with
  | nil => rwa [List.append_nil]
  | cons hmove _ ih =>
    rw [List.append_cons]
    exact ih (h.moves hmove)

/-! ## Running a derivation -/

section Running

open Builder

mutual

/-- The tokens of a template add its nodes, whatever is open. -/
theorem Spells.run {tokens : List Token} {nodes : List Node} (h : Spells tokens nodes)
    (b : Builder) : Run b tokens ⟨nodes.reverse ++ b.nodes, b.frames⟩ := by
  match h with
  | .nil => exact .nil
  | .text ht h =>
    have hrun := Run.cons (.text ht) (h.run (b.add _))
    simpa [Builder.add] using hrun
  | .output ht h =>
    have hrun := Run.cons (.output ht) (h.run (b.add _))
    simpa [Builder.add] using hrun
  -- The body is run with the loop open, and its end closes the loop over the nodes it added.
  | @Spells.loop t stop name items _ _ body _ ht hbody hstop h =>
    have hinner := hbody.run (b.openBlock (.loop t name items))
    have hclose : Run ⟨body.reverse, ⟨.loop t name items, b.nodes⟩ :: b.frames⟩ _ _ :=
      .cons (.closeLoop hstop) (h.run _)
    rw [List.cons_append]
    refine .cons (.openLoop ht) (hinner.append ?_)
    simpa [Builder.openBlock] using hclose
  | @Spells.choice t condition _ _ _ body _ _ ht hbody harms h =>
    have hinner := hbody.run (b.openBlock (.choice t [] (some condition)))
    have hrest := (harms.run t [] condition body.reverse b.nodes b.frames).append (h.run _)
    rw [List.cons_append]
    refine .cons (.openChoice ht) (hinner.append ?_)
    simpa [Builder.openBlock] using hrest

/-- The rest of a choice adds its branches to those that are finished and closes it. -/
theorem SpellsArms.run {tokens : List Token} {arms : List Arm} (h : SpellsArms tokens arms)
    (opener : Token) (finished : List Arm) (condition : Expr) (nodes before : List Node)
    (rest : List Frame) :
    Run ⟨nodes, ⟨.choice opener finished (some condition), before⟩ :: rest⟩ tokens
      ⟨.choice opener (finished ++ .mk (some condition) nodes.reverse :: arms) :: before,
        rest⟩ := by
  match h with
  | .close hstop => exact .cons (.closeChoice hstop) .nil
  | @SpellsArms.condition _ next _ _ body _ ht hbody harms =>
    have hinner := hbody.run ⟨[], ⟨.choice opener
      (finished ++ [.mk (some condition) nodes.reverse]) (some next), before⟩ :: rest⟩
    have hrest := harms.run opener (finished ++ [.mk (some condition) nodes.reverse]) next
    rw [List.cons_append]
    refine .cons (.condition ht) (hinner.append ?_)
    simpa using hrest body.reverse before rest
  | @SpellsArms.default _ stop _ body ht hbody hstop =>
    have hinner := hbody.run ⟨[], ⟨.choice opener
      (finished ++ [.mk (some condition) nodes.reverse]) none, before⟩ :: rest⟩
    have hclose : Run ⟨body.reverse, ⟨.choice opener
        (finished ++ [.mk (some condition) nodes.reverse]) none, before⟩ :: rest⟩ [stop] _ :=
      .cons (.closeChoice hstop) .nil
    rw [List.cons_append]
    refine .cons (.default ht) (hinner.append ?_)
    simpa using hclose

end

end Running

/-! ## Parsing -/

theorem finish_eq_ok_iff {b : Builder} {nodes : List Node} :
    b.finish = .ok nodes ↔ b.frames = [] ∧ b.body = nodes := by
  rw [Builder.finish]
  cases b.frames <;> simp

/-- Trimmed tokens parse to the trees that they spell. -/
theorem parseTokens_eq_ok_iff {tokens : List Token} (ht : ∀ t ∈ tokens, t.Tidy)
    {nodes : List Node} : parseTokens tokens = .ok nodes ↔ Spells tokens nodes := by
  rw [parseTokens, Outcome.bind_eq_ok]
  constructor
  · rintro ⟨b, hfold, hfinish⟩
    obtain ⟨hframes, rfl⟩ := finish_eq_ok_iff.mp hfinish
    have hstart : Built Builder.start.frames [] Builder.start.body := Spells.nil
    have hbuilt := hstart.run ((Builder.foldlM_eq_ok_iff ht).mp hfold)
    rw [hframes] at hbuilt
    exact hbuilt
  · intro h
    refine ⟨_, (Builder.foldlM_eq_ok_iff ht).mpr (h.run .start), ?_⟩
    rw [finish_eq_ok_iff]
    exact ⟨rfl, by simp [Builder.body, Builder.start]⟩

theorem compile_eq_ok_iff {g : Setting} {located : Bool} {name : Option String} {source : String}
    {t : Template} : compile g located name source = .ok t ↔
      ∃ nodes, Spells (Token.tokens located source) nodes ∧
        t = ⟨name, source, nodes, g, located⟩ := by
  have hparse : ∀ {nodes}, parseTokens (Token.tokens located source) = .ok nodes ↔ Spells _ nodes :=
    parseTokens_eq_ok_iff fun _ => Token.tidy_of_mem_tokens
  simp only [← hparse, compile]
  cases parseTokens (Token.tokens located source) <;> simp [eq_comm]

/-- The tokens of a template parse exactly when they derive from the grammar.  The tree is then
the only one that they spell, and in each of its choices the branch without a condition, if there
is one, is the last. -/
theorem parseTokens_tokens (located : Bool) (source : String) :
    ((∃ nodes, parseTokens (Token.tokens located source) = .ok nodes) ↔
      ∃ nodes, Spells (Token.tokens located source) nodes) ∧
    ∀ nodes, parseTokens (Token.tokens located source) = .ok nodes →
      Spells (Token.tokens located source) nodes ∧
      (∀ others, Spells (Token.tokens located source) others → others = nodes) ∧
      ChoicesOrdered (Node.allOf nodes) := by
  have hparse : ∀ {nodes}, parseTokens (Token.tokens located source) = .ok nodes ↔
      Spells (Token.tokens located source) nodes :=
    parseTokens_eq_ok_iff fun _ => Token.tidy_of_mem_tokens
  refine ⟨exists_congr fun _ => hparse, ?_⟩
  intro nodes h
  have hspells := hparse.mp h
  refine ⟨hspells, ?_, hspells.choicesOrdered⟩
  intro others hothers
  rw [← hparse, h] at hothers
  cases hothers
  rfl

end Template
end Quill
