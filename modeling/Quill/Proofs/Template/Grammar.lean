import Quill.Proofs.Template.Tags

/-!
The grammar of templates, and the tree that each derivation stands for.

A template is a sequence of literal texts, output tags, loops and choices.  A loop is its head,
a template and `endfor`.  A choice is `if` with a condition, a template, and the rest of the
choice: `endif`, or `elif` with a condition, a template and the rest again, or `else`, a template
and `endif`.
-/

namespace Quill
namespace Template

mutual

inductive Spells : List Token → List Node → Prop
  | nil : Spells [] []
  | text {t : Token} {tokens : List Token} {nodes : List Node} :
      t.kind = .text → Spells tokens nodes → Spells (t :: tokens) (.text t :: nodes)
  | output {t : Token} {p : Pipeline} {tokens : List Token} {nodes : List Node} :
      t.IsOutput p → Spells tokens nodes → Spells (t :: tokens) (.output t p :: nodes)
  | loop {t stop : Token} {name : String} {items : Expr} {inner tokens : List Token}
      {body nodes : List Node} :
      t.IsLoop name items → Spells inner body → stop.IsBare "endfor" → Spells tokens nodes →
      Spells (t :: inner ++ stop :: tokens) (.loop t name items body :: nodes)
  | choice {t : Token} {condition : Expr} {inner more tokens : List Token}
      {body nodes : List Node} {arms : List Arm} :
      t.IsCondition "if" condition → Spells inner body → SpellsArms more arms →
      Spells tokens nodes →
      Spells (t :: inner ++ (more ++ tokens))
        (.choice t (.mk (some condition) body :: arms) :: nodes)

/-- The tokens of a choice after its first branch, the closing tag among them, and the
branches that they add. -/
inductive SpellsArms : List Token → List Arm → Prop
  | close {stop : Token} : stop.IsBare "endif" → SpellsArms [stop] []
  | condition {t : Token} {condition : Expr} {inner more : List Token} {body : List Node}
      {arms : List Arm} :
      t.IsCondition "elif" condition → Spells inner body → SpellsArms more arms →
      SpellsArms (t :: inner ++ more) (.mk (some condition) body :: arms)
  | default {t stop : Token} {inner : List Token} {body : List Node} :
      t.IsBare "else" → Spells inner body → stop.IsBare "endif" →
      SpellsArms (t :: inner ++ [stop]) [.mk none body]

end

/-- Two templates in a row are a template. -/
theorem Spells.append {front back : List Token} {before after : List Node}
    (h : Spells front before) (hback : Spells back after) :
    Spells (front ++ back) (before ++ after) := by
  match h with
  | .nil => exact hback
  | .text ht h => exact .text ht (h.append hback)
  | .output ht h => exact .output ht (h.append hback)
  | .loop ht hbody hstop h =>
    have hrest := Spells.loop ht hbody hstop (h.append hback)
    simpa only [List.append_assoc, List.cons_append] using hrest
  | .choice ht hbody harms h =>
    have hrest := Spells.choice ht hbody harms (h.append hback)
    simpa only [List.append_assoc, List.cons_append] using hrest

/-! ## Branches without a condition -/

def DefaultLast (arms : List Arm) : Prop :=
  ∃ conditioned last, arms = conditioned ++ last ∧
    (∀ a ∈ conditioned, a.condition ≠ none) ∧ (last = [] ∨ ∃ body, last = [.mk none body])

theorem DefaultLast.cons {arms : List Arm} (h : DefaultLast arms) (condition : Expr)
    (body : List Node) : DefaultLast (.mk (some condition) body :: arms) := by
  obtain ⟨conditioned, last, rfl, hconditioned, hlast⟩ := h
  refine ⟨.mk (some condition) body :: conditioned, last, rfl, ?_, hlast⟩
  intro a ha
  rcases List.mem_cons.mp ha with rfl | ha
  · exact Option.some_ne_none condition
  · exact hconditioned a ha

theorem SpellsArms.defaultLast {tokens : List Token} {arms : List Arm}
    (h : SpellsArms tokens arms) : DefaultLast arms := by
  match h with
  | .close _ => exact ⟨[], [], rfl, by simp, .inl rfl⟩
  | .condition _ _ harms => exact harms.defaultLast.cons _ _
  | .default _ _ _ => exact ⟨[], _, rfl, by simp, .inr ⟨_, rfl⟩⟩

/-- Whether every choice in a tree begins with a condition and has at most one branch without
one, which is the last. -/
def ChoicesOrdered (nodes : List Node) : Prop :=
  ∀ t arms, .choice t arms ∈ nodes →
    (∃ condition body rest, arms = .mk (some condition) body :: rest) ∧ DefaultLast arms

mutual

theorem Spells.choicesOrdered {tokens : List Token} {nodes : List Node}
    (h : Spells tokens nodes) : ChoicesOrdered (Node.allOf nodes) := by
  intro t arms hmem
  match h with
  | .nil => simp [Node.allOf] at hmem
  | .text _ h | .output _ h =>
    rw [Node.allOf, Node.all, List.singleton_append, List.mem_cons] at hmem
    rcases hmem with heq | hmem
    · cases heq
    · exact h.choicesOrdered t arms hmem
  | .loop _ hbody _ h =>
    rw [Node.allOf, Node.all, List.cons_append, List.mem_cons, List.mem_append] at hmem
    rcases hmem with heq | hmem | hmem
    · cases heq
    · exact hbody.choicesOrdered t arms hmem
    · exact h.choicesOrdered t arms hmem
  | .choice _ hbody harms h =>
    rw [Node.allOf, Node.all, List.cons_append, List.mem_cons, Node.allOfArms,
      List.mem_append, List.mem_append] at hmem
    rcases hmem with heq | (hmem | hmem) | hmem
    · cases heq
      exact ⟨⟨_, _, _, rfl⟩, harms.defaultLast.cons _ _⟩
    · exact hbody.choicesOrdered t arms hmem
    · exact harms.choicesOrdered t arms hmem
    · exact h.choicesOrdered t arms hmem

theorem SpellsArms.choicesOrdered {tokens : List Token} {arms : List Arm}
    (h : SpellsArms tokens arms) : ChoicesOrdered (Node.allOfArms arms) := by
  intro t others hmem
  match h with
  | .close _ => simp [Node.allOfArms] at hmem
  | .condition _ hbody harms =>
    rw [Node.allOfArms, List.mem_append] at hmem
    rcases hmem with hmem | hmem
    · exact hbody.choicesOrdered t others hmem
    · exact harms.choicesOrdered t others hmem
  | .default _ hbody _ =>
    rw [Node.allOfArms, Node.allOfArms, List.append_nil] at hmem
    exact hbody.choicesOrdered t others hmem

end

end Template
end Quill
