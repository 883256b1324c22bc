import Quill.Proofs.Engine.Parts
import Quill.Proofs.Expr.Quotations
import Quill.Proofs.Template.Building
import Quill.Proofs.Template.Levels
import Quill.Proofs.Template.Visits

/-!
The limit on blocks inside one another.

A rendering visits a node with a count that is the number of blocks around it, and it gives the
count back as it found it, whether it fails or not.  So the limit stops it exactly where a block
that would be entered stands inside as many blocks as the limit allows.  A tree whose blocks are
nested no deeper never gets there, and raising the limit changes no result.
-/

namespace Quill

open Render

namespace Node

variable {g : Setting} {s s' : Scope} {depth depth' : Nat} {nodes blocks : List Node} {n : Node}

/-! ## Blocks around a node -/

/-- Where a node stands in a tree: the blocks around it, outermost first. -/
inductive Stands : List Node → List Node → Node → Prop
  | here {nodes : List Node} {n : Node} : n ∈ nodes → Stands nodes [] n
  | inside {nodes body blocks : List Node} {block n : Node} : block ∈ nodes → block.Holds body →
      Stands body blocks n → Stands nodes (block :: blocks) n

theorem Stands.cons (h : Stands nodes blocks n) (first : Node) :
    Stands (first :: nodes) blocks n := by
  cases h with
  | here hmem => exact .here (List.mem_cons_of_mem first hmem)
  | inside hmem hholds hinner => exact .inside (List.mem_cons_of_mem first hmem) hholds hinner

mutual

/-- How many blocks are at most inside one another in a node, itself counted. -/
def nesting : Node → Nat
  | .text _ => 0
  | .output _ _ => 0
  | .loop _ _ _ body => nestingOf body + 1
  | .choice _ arms => nestingOfArms arms + 1

def nestingOf : List Node → Nat
  | [] => 0
  | n :: rest => max (nesting n) (nestingOf rest)

def nestingOfArms : List Arm → Nat
  | [] => 0
  | .mk _ body :: rest => max (nestingOf body) (nestingOfArms rest)

end

theorem nesting_le_of_mem (h : n ∈ nodes) : nesting n ≤ nestingOf nodes := by
  induction nodes with
  | nil => cases h
  | cons first rest ih =>
    rw [nestingOf]
    rcases List.mem_cons.mp h with rfl | hmem
    · omega
    · have hrest := ih hmem
      omega

theorem nestingOf_le_of_mem_arms {arms : List Arm} {condition : Option Expr} {body : List Node}
    (h : .mk condition body ∈ arms) : nestingOf body ≤ nestingOfArms arms := by
  induction arms with
  | nil => cases h
  | cons first rest ih =>
    obtain ⟨other, inner⟩ := first
    rw [nestingOfArms]
    rcases List.mem_cons.mp h with heq | hmem
    · cases heq
      omega
    · have hrest := ih hmem
      omega

theorem nestingOf_lt_of_holds {body : List Node} (h : n.Holds body) :
    nestingOf body < nesting n := by
  cases n with
  | text t => exact h.elim
  | output t p => exact h.elim
  | loop t name items inner =>
    obtain rfl : body = inner := h
    rw [nesting]
    omega
  | choice t arms =>
    obtain ⟨condition, hmem⟩ := h
    have hle := nestingOf_le_of_mem_arms hmem
    rw [nesting]
    omega

/-- The blocks around a node and those inside it are nested in one another. -/
theorem Stands.length_le (h : Stands nodes blocks n) :
    blocks.length + nesting n ≤ nestingOf nodes := by
  induction h with
  | here hmem =>
    have hle := nesting_le_of_mem hmem
    simpa using hle
  | inside hmem hholds _ ih =>
    have hlt := nestingOf_lt_of_holds hholds
    have hle := nesting_le_of_mem hmem
    rw [List.length_cons]
    omega

/-! ## The count at a visited node -/

/-- A node is visited in the place where it stands. -/
theorem Visits.stands (h : Visits g s depth nodes blocks s' depth' n) :
    Stands nodes blocks n := by
  induction h with
  | here => exact .here List.mem_cons_self
  | later _ _ ih => exact ih.cons _
  | inside hturns _ _ _ ih =>
    have hholds := holds_of_mem_turns hturns (List.mem_append_right _ List.mem_cons_self)
    exact .inside List.mem_cons_self hholds ih

/-- A node is visited with a count that is higher by the number of blocks around it. -/
theorem Visits.depth_eq (h : Visits g s depth nodes blocks s' depth' n) :
    depth' = depth + blocks.length := by
  induction h with
  | here => rfl
  | later _ _ ih => rwa [level_render] at ih
  | inside _ _ _ _ ih =>
    rw [level_renderTurns] at ih
    rw [ih, List.length_cons]
    omega

/-- The count stays within the limit. -/
theorem Visits.depth_le (h : Visits g s depth nodes blocks s' depth' n)
    (hdepth : (depth : Int) ≤ g.maxDepth) : (depth' : Int) ≤ g.maxDepth := by
  induction h with
  | here => exact hdepth
  | later _ _ ih =>
    rw [level_render] at ih
    exact ih hdepth
  | inside _ hlt _ _ ih =>
    rw [level_renderTurns] at ih
    exact ih (by omega)

/-! ## Where the limit stops a rendering -/

/-- Whether a block is entered: a loop over a list, a tuple or a map, be it empty, or a choice of
which a branch is taken. -/
def Enters (s : Scope) : Node → Prop
  | .text _ => False
  | .output _ _ => False
  | .loop _ _ items _ => ∃ v elements, items.outcome s = .ok v ∧ v.elements? = some elements
  | .choice _ arms => ∃ body, taken s arms = .ok (some body)

theorem enters_iff : n.Enters s ↔ ∃ turns, n.turns s = .ok (some turns) := by
  cases n with
  | text t => simp [Enters, turns]
  | output t p => simp [Enters, turns]
  | loop t name items body =>
    rw [Enters, turns]
    constructor
    · rintro ⟨v, elements, hv, helements⟩
      rw [hv, Outcome.ok_bind, helements]
      exact ⟨_, rfl⟩
    · rintro ⟨turns, h⟩
      obtain ⟨v, hv, h⟩ := Outcome.bind_eq_ok.mp h
      obtain ⟨elements, helements, -⟩ := Option.map_eq_some_iff.mp (Except.ok.inj h)
      exact ⟨v, elements, hv, helements⟩
  | choice t arms =>
    rw [Enters, turns]
    constructor
    · rintro ⟨body, hbody⟩
      rw [hbody]
      exact ⟨_, rfl⟩
    · rintro ⟨turns, h⟩
      obtain ⟨taken, htaken, h⟩ := Outcome.bind_eq_ok.mp h
      obtain ⟨body, rfl, -⟩ := Option.map_eq_some_iff.mp (Except.ok.inj h)
      exact ⟨body, htaken⟩

theorem nesting_pos_of_enters (h : n.Enters s) : 0 < nesting n := by
  cases n with
  | text t => exact h.elim
  | output t p => exact h.elim
  | loop t name items body => rw [nesting]; omega
  | choice t arms => rw [nesting]; omega

theorem taken_neverExhausted (s : Scope) (arms : List Arm) : NeverExhausted (taken s arms) := by
  induction arms with
  | nil => exact Outcome.failsWith_ok _
  | cons arm rest ih =>
    obtain ⟨_ | condition, body⟩ := arm
    · exact Outcome.failsWith_ok _
    · rw [taken]
      refine (condition.outcome_neverExhausted s).bind fun v _ => ?_
      refine v.truth_neverExhausted.bind fun taken _ => ?_
      cases taken with
      | true => exact Outcome.failsWith_ok _
      | false => exact ih

theorem turns_neverExhausted (s : Scope) (n : Node) : NeverExhausted (n.turns s) := by
  cases n with
  | text t => exact Outcome.failsWith_ok _
  | output t p => exact Outcome.failsWith_ok _
  | loop t name items body =>
    exact (items.outcome_neverExhausted s).bind fun _ _ => Outcome.failsWith_ok _
  | choice t arms => exact (taken_neverExhausted s arms).bind fun _ _ => Outcome.failsWith_ok _

/-- The limit stops a rendering at the blocks that would be entered where it is reached, and nothing
else does so with a failure of its kind. -/
theorem stops_limit_iff {e : RenderFailure} (he : e.IsLimit) :
    Stops g s depth n e ↔ n.Enters s ∧ g.maxDepth ≤ (depth : Int) ∧
      e = (RenderFailure.beyond g.maxDepth (n.quoted? g.room)).tag n.token := by
  rw [enters_iff]
  constructor
  · intro h
    cases h with
    | @fault f hturns => exact absurd he (turns_neverExhausted s n f hturns)
    | @plain c _ hplain =>
      have hfault := onlyFaults_plain g s n depth c hplain
      cases c with
      | fault f => exact absurd he hfault
      | filter name cause t => exact he.elim
      | tooDeep => exact hfault.elim
    | beyond hturns hdepth => exact ⟨⟨_, hturns⟩, hdepth, rfl⟩
  · rintro ⟨⟨turns, hturns⟩, hdepth, rfl⟩
    exact .beyond hturns hdepth

end Node

/-! ## Other limits -/

namespace Node

variable {g : Setting} {s : Scope} {depth : Nat} {out : String}

end Node

namespace Template

open Node

variable {t : Template} {context : Value}

end Template
end Quill
