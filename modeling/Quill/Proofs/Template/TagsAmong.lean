import Quill.Proofs.Pipeline.Splitting
import Quill.Proofs.Template.Carried
import Quill.Proofs.Template.Grammar

/-!
The tags of a template that compiles.

Each of them is the tag of an output node or of a loop in the tree, a condition, or one of the words
that go on with a block or close it.  All but these words carry an expression that is accepted.
-/

namespace Quill

open Text

theorem Node.mem_allOf_cons (n : Node) (rest : List Node) : n ∈ Node.allOf (n :: rest) := by
  cases n <;> simp [Node.allOf, Node.all]

/-- What a tag is in a template: the tag of an output node or of a loop, a condition, or a word. -/
inductive Token.TagAmong (nodes : List Node) (t : Token) : Prop
  | output {p : Pipeline} : t.IsOutput p → .output t p ∈ nodes → TagAmong nodes t
  | loop {name : String} {items : Expr} {body : List Node} : t.IsLoop name items →
      .loop t name items body ∈ nodes → TagAmong nodes t
  | condition {word : String} {e : Expr} : word = "if" ∨ word = "elif" → t.IsCondition word e →
      TagAmong nodes t
  | bare {word : String} : word ∈ ["endfor", "else", "endif"] → t.IsBare word → TagAmong nodes t

namespace Token

theorem TagAmong.mono {nodes more : List Node} {t : Token} (h : t.TagAmong nodes)
    (hmore : nodes ⊆ more) : t.TagAmong more := by
  cases h with
  | output ht hmem => exact .output ht (hmore hmem)
  | loop ht hmem => exact .loop ht (hmore hmem)
  | condition hword ht => exact .condition hword ht
  | bare hword ht => exact .bare hword ht

end Token

namespace Template

mutual

theorem Spells.tagAmong {tokens : List Token} {nodes : List Node} (h : Spells tokens nodes)
    {t : Token} (ht : t ∈ tokens) (hkind : t.kind ≠ .text) : t.TagAmong (Node.allOf nodes) := by
  match h with
  | .nil => cases ht
  | .text htext h =>
    rcases List.mem_cons.mp ht with rfl | ht
    · exact absurd htext hkind
    · exact (h.tagAmong ht hkind).mono (by simp [Node.allOf, Node.all])
  | .output houtput h =>
    rcases List.mem_cons.mp ht with rfl | ht
    · exact .output houtput (Node.mem_allOf_cons _ _)
    · exact (h.tagAmong ht hkind).mono (by simp [Node.allOf, Node.all])
  | .loop hloop hbody hstop h =>
    rw [List.cons_append, List.mem_cons, List.mem_append, List.mem_cons] at ht
    rcases ht with rfl | ht | rfl | ht
    · exact .loop hloop (Node.mem_allOf_cons _ _)
    · exact (hbody.tagAmong ht hkind).mono fun n hn => by simp [Node.allOf, Node.all, hn]
    · exact .bare (by simp) hstop
    · exact (h.tagAmong ht hkind).mono (by simp [Node.allOf, Node.all])
  | .choice hcondition hbody harms h =>
    rw [List.cons_append, List.mem_cons, List.mem_append, List.mem_append] at ht
    rcases ht with rfl | ht | ht | ht
    · exact .condition (.inl rfl) hcondition
    · refine (hbody.tagAmong ht hkind).mono fun n hn => ?_
      simp [Node.allOf, Node.all, Node.allOfArms, hn]
    · refine (harms.tagAmong ht hkind).mono fun n hn => ?_
      simp [Node.allOf, Node.all, Node.allOfArms, hn]
    · exact (h.tagAmong ht hkind).mono (by simp [Node.allOf, Node.all])

theorem SpellsArms.tagAmong {tokens : List Token} {arms : List Arm} (h : SpellsArms tokens arms)
    {t : Token} (ht : t ∈ tokens) (hkind : t.kind ≠ .text) :
    t.TagAmong (Node.allOfArms arms) := by
  match h with
  | .close hstop =>
    obtain rfl := List.mem_singleton.mp ht
    exact .bare (by simp) hstop
  | .condition hcondition hbody harms =>
    rw [List.cons_append, List.mem_cons, List.mem_append] at ht
    rcases ht with rfl | ht | ht
    · exact .condition (.inr rfl) hcondition
    · exact (hbody.tagAmong ht hkind).mono (by simp [Node.allOfArms])
    · exact (harms.tagAmong ht hkind).mono (by simp [Node.allOfArms])
  | .default hdefault hbody hstop =>
    rw [List.cons_append, List.mem_cons, List.mem_append, List.mem_singleton] at ht
    rcases ht with rfl | ht | rfl
    · exact .bare (by simp) hdefault
    · exact (hbody.tagAmong ht hkind).mono (by simp [Node.allOfArms])
    · exact .bare (by simp) hstop

end

end Template

namespace Token

/-! ## The expression of a tag -/

variable {t : Token}

theorem TagAmong.exists_output {nodes : List Node} (h : t.TagAmong nodes)
    (hkind : t.kind = .output) : ∃ p, t.IsOutput p ∧ .output t p ∈ nodes := by
  cases h with
  | output houtput hmem => exact ⟨_, houtput, hmem⟩
  | loop hloop _ => exact absurd (hkind.symm.trans hloop.1) (by decide)
  | condition _ hcondition => exact absurd (hkind.symm.trans hcondition.1) (by decide)
  | bare _ hbare => exact absurd (hkind.symm.trans hbare.1) (by decide)

/-- Whatever holds an expression carries one that is accepted. -/
theorem TagAmong.carries {nodes : List Node} (h : t.TagAmong nodes) (ht : t.Tidy) :
    (∃ heading text e, t.Carries heading text ∧ Expr.parse (String.ofList text) = .ok e) ∨
      t.contents ∈ ["endfor", "else", "endif"] := by
  cases h with
  | output houtput =>
    obtain ⟨hkind, hread⟩ := houtput
    obtain ⟨subject, hhead, hne, hparse⟩ := Pipeline.exists_subject_of_read hread
    rw [← String.ofList_toList (s := subject)] at hparse
    exact .inl ⟨[], subject.toList, _, carries_output ht hkind hhead hne, hparse⟩
  | loop hloop =>
    obtain ⟨hkind, afterFor, afterName, text, hfor, hname, hwords, hin, hparse⟩ := hloop
    obtain ⟨heading, hcarries⟩ := carries_loop hkind hfor hname hwords hin
    exact .inl ⟨heading, text, _, hcarries, hparse⟩
  | condition hword hcondition =>
    obtain ⟨hkind, text, hwords, hparse⟩ := hcondition
    obtain ⟨heading, hcarries⟩ := carries_condition hkind hword hwords
    exact .inl ⟨heading, text, _, hcarries, hparse⟩
  | bare hword hbare =>
    rw [hbare.2]
    exact .inr hword

end Token

end Quill
