import Quill.Proofs.Template.Depth
import Quill.Proofs.Template.Levels

/-!
Choices with several conditions as choices inside one another.

A choice asks its conditions in order and renders the body of the first branch that is taken.  The
branches behind the first one may as well stand in a choice of their own, in a branch that is always
taken (`Nests`): the same conditions are asked, and the same body is rendered.  Only the count of
blocks is different, since each choice inside another one is one block further in.
-/

namespace Quill

open Render

/-! ## Asking for conditions -/

def Arm.test (s : Scope) : Arm → Trace Fault Bool
  | .mk none _ => pure true
  | .mk (some condition) _ => do (← condition.eval s).truth

namespace Node

variable {g : Setting} {s : Scope} {depth : Nat}

/-- The body of the first branch that is taken, with the events of the conditions that are asked. -/
def ask (s : Scope) : List Arm → Trace Fault (Option (List Node))
  | [] => pure none
  | arm :: rest => do
    if ← arm.test s then return some arm.body else ask s rest

/-- Branches ask for a body, and they render nothing else. -/
theorem renderArms_eq_ask (block : Option String) (arms : List Arm) :
    renderArms g s block arms = (do
      match ← ofValueTrace (ask s arms) with
      | none => return ""
      | some body => nested g.maxDepth block (renderAll g s body)) := by
  induction arms with
  | nil =>
    rw [renderArms]
    rfl
  | cons arm rest ih =>
    obtain ⟨_ | condition, body⟩ := arm
    · rw [renderArms]
      rfl
    · have hask : ofValueTrace (ask s (.mk (some condition) body :: rest)) =
          ofValueTrace (Arm.test s (.mk (some condition) body)) >>= fun taken =>
            ofValueTrace (if taken then pure (some body) else ask s rest) := ofValueTrace_bind _ _
      rw [renderArms, hask, bind_assoc]
      show ofValueTrace (Arm.test s (.mk (some condition) body)) >>= _ = _
      refine congrArg (ofValueTrace (Arm.test s (.mk (some condition) body)) >>= ·)
        (funext fun taken => ?_)
      cases taken with
      | true => rfl
      | false => exact ih

/-- The conditions up to the first one that holds are asked, and no others. -/
theorem ask_append {before : List Arm} (hbefore : ∀ arm ∈ before, (arm.test s).result = .ok false)
    {arm : Arm} (harm : (arm.test s).result = .ok true) (after : List Arm) :
    ask s (before ++ arm :: after) =
      ⟨(before ++ [arm]).flatMap fun arm => (arm.test s).events, .ok (some arm.body)⟩ := by
  induction before with
  | nil =>
    rw [List.nil_append, ask, Trace.bind_of_ok harm, if_pos rfl]
    rfl
  | cons first rest ih =>
    obtain ⟨hfirst, hrest⟩ := List.forall_mem_cons.mp hbefore
    rw [List.cons_append, ask, Trace.bind_of_ok hfirst, if_neg (by decide), ih hrest]
    rfl

/-- Where no condition holds all are asked. -/
theorem ask_of_forall {arms : List Arm} (h : ∀ arm ∈ arms, (arm.test s).result = .ok false) :
    ask s arms = ⟨arms.flatMap fun arm => (arm.test s).events, .ok none⟩ := by
  induction arms with
  | nil => rfl
  | cons first rest ih =>
    obtain ⟨hfirst, hrest⟩ := List.forall_mem_cons.mp h
    rw [ask, Trace.bind_of_ok hfirst, if_neg (by decide), ih hrest]
    rfl

/-! ## Choices inside one another -/

/-- Branches of which some that come later stand in a choice of their own, in a last branch that is
always taken.  Those may do so again. -/
inductive Nests : List Arm → List Arm → Prop
  | same {arms : List Arm} : Nests arms arms
  | step {condition : Option Expr} {body : List Node} {rest rest' : List Arm} (t : Token) :
      Nests rest rest' →
      Nests (.mk condition body :: rest) [.mk condition body, .mk none [.choice t rest']]

/-- The branches of a choice as choices of two branches at most, inside one another. -/
def unchained (t : Token) : List Arm → List Arm
  | first :: second :: third :: rest =>
    [first, .mk none [.choice t (unchained t (second :: third :: rest))]]
  | [first, .mk (some condition) body] =>
    [first, .mk none [.choice t [.mk (some condition) body]]]
  | arms => arms

theorem nests_unchained (t : Token) (arms : List Arm) : Nests arms (unchained t arms) := by
  fun_induction unchained t arms with
  | case1 first second third rest ih =>
    obtain ⟨condition, body⟩ := first
    exact .step t ih
  | case2 first condition body =>
    obtain ⟨_, _⟩ := first
    exact .step t .same
  | case3 arms => exact .same

/-- Unless the limit stops it, what branches give carries a token already if it has one at all. -/
theorem tagged_renderArms {block : Option String} {arms : List Arm}
    (hfree : ¬ Stopped (renderArms g s block arms) depth) (t : Token) :
    tagged t (renderArms g s block arms) depth = renderArms g s block arms depth := by
  have htag : (renderArms g s block arms depth).2.result.mapError (.tag t) =
      (renderArms g s block arms depth).2.result := by
    cases hresult : (renderArms g s block arms depth).2.result with
    | ok out => rfl
    | error e =>
      refine congrArg Except.error ?_
      rw [result_renderArms] at hresult
      cases htaken : taken s arms with
      | error f =>
        rw [htaken] at hresult
        cases hresult
        rfl
      | ok body =>
        rw [htaken] at hresult
        cases body with
        | none => cases hresult
        | some body =>
          dsimp only at hresult
          rcases Int.lt_or_le (depth : Int) g.maxDepth with hlt | hle
          · rw [result_nested_of_lt hlt] at hresult
            obtain ⟨_, _, _, _, -, hstops⟩ := exists_visits_of_error hresult
            exact hstops.tag_eq t
          · refine absurd ⟨_, ?_, RenderFailure.isLimit_beyond g.maxDepth block⟩ hfree
            rw [result_renderArms, htaken]
            exact congrArg Trace.result (result_nested_of_le hle _ _)
  exact congrArg
    (fun r => ((renderArms g s block arms depth).1,
      (⟨(renderArms g s block arms depth).2.events, r⟩ : Trace RenderFailure String))) htag

/-- A choice in a branch that is always taken is rendered one block further in. -/
theorem renderArms_choice (block : Option String) (t : Token) (arms : List Arm) :
    renderArms g s block [.mk none [.choice t arms]] =
      nested g.maxDepth block (tagged t (renderArms g s (some "<IfNode>") arms)) := by
  rw [renderArms, renderAll_singleton, render]
  rfl

/-- Branches that stand in choices of their own are rendered as they are in a single one, unless the
limit stops them. -/
theorem renderArms_nests {arms arms' : List Arm} (h : Nests arms arms') {depth : Nat}
    (hfree : ¬ Stopped (renderArms g s (some "<IfNode>") arms') depth) :
    renderArms g s (some "<IfNode>") arms' depth = renderArms g s (some "<IfNode>") arms depth := by
  induction h generalizing depth with
  | same => rfl
  | @step condition body rest rest' t _ ih =>
    cases condition with
    | none =>
      rw [renderArms, renderArms]
    | some condition =>
      have hcons : ∀ rest, renderArms g s (some "<IfNode>") (.mk (some condition) body :: rest) =
          ofValueTrace (Arm.test s (.mk (some condition) body)) >>= fun taken =>
            if taken then nested g.maxDepth (some "<IfNode>") (renderAll g s body)
            else renderArms g s (some "<IfNode>") rest := fun _ => by rw [renderArms]; rfl
      rw [hcons] at hfree
      rw [hcons, hcons]
      refine bind_apply_congr hfree fun taken hfree => ?_
      cases taken with
      | true => rfl
      | false =>
        -- the rest is one block further in, where it gives what it gives here
        change ¬ Stopped (renderArms g s (some "<IfNode>") [.mk none [.choice t rest']]) depth
          at hfree
        show renderArms g s (some "<IfNode>") [.mk none [.choice t rest']] depth =
          renderArms g s (some "<IfNode>") rest depth
        have hlevel : ∀ arms, (renderArms g s (some "<IfNode>") arms depth).1 = depth :=
          fun arms => (steady_renderArms s (some "<IfNode>") arms).level depth
        refine Prod.ext ((hlevel _).trans (hlevel rest).symm) ?_
        rw [renderArms_choice] at hfree ⊢
        rcases Int.lt_or_le (depth : Int) g.maxDepth with hlt | hle
        · have hinner : ¬ Stopped (renderArms g s (some "<IfNode>") rest') (depth + 1) := by
            rintro hstopped
            refine hfree ?_
            rw [Stopped, result_nested_of_lt hlt]
            exact hstopped.tagged t
          have hrest := ih hinner
          rw [result_nested_of_lt hlt, tagged_renderArms hinner, hrest]
          refine ((steady_renderArms s (some "<IfNode>") rest).lower depth 1 ?_).symm
          rwa [Stopped, ← hrest]
        · exact absurd (stopped_nested_of_le hle _ _) hfree

/-- The limit does not stop a node whose blocks are nested no deeper than it allows. -/
theorem not_stopped_of_nesting_le {n : Node} (h : ((depth + nesting n : Nat) : Int) ≤ g.maxDepth) :
    ¬ Stopped (render g s n) depth := by
  rintro ⟨e, hresult, hlimit⟩
  rw [← renderAll_singleton] at hresult
  obtain ⟨blocks, s', depth', m, hvisits, hstops⟩ := exists_visits_of_error hresult
  obtain ⟨henters, hreached, -⟩ := (stops_limit_iff hlimit).mp hstops
  have hdepth := hvisits.depth_eq
  have hlength := hvisits.stands.length_le
  have hpos := nesting_pos_of_enters henters
  rw [nestingOf, nestingOf] at hlength
  omega

/-- A choice renders what it does when branches of it stand in choices of their own, whatever the
tags of those: the same text or the same failure, with the same events.  That holds unless the limit
stops it, which it does not if it allows all the blocks that are inside one another.  Every list of
branches can be nested until no choice has more than two.  At most one body is rendered, that of the
first branch that is taken; the conditions up to that one are asked, and no others. -/
theorem render_nested_choices (s : Scope) (depth : Nat) (t : Token) (arms : List Arm) :
    (∀ t' arms', Nests arms arms' →
      (¬ Stopped (render g s (.choice t' arms')) depth →
        render g s (.choice t' arms') depth = render g s (.choice t arms) depth) ∧
      (((depth + nesting (.choice t' arms') : Nat) : Int) ≤ g.maxDepth →
        ¬ Stopped (render g s (.choice t' arms')) depth)) ∧
    (∀ t', Nests arms (unchained t' arms)) ∧
    (render g s (.choice t arms) = tagged t do
      match ← ofValueTrace (ask s arms) with
      | none => return ""
      | some body => nested g.maxDepth (some "<IfNode>") (renderAll g s body)) ∧
    (∀ before arm after, arms = before ++ arm :: after →
      (∀ arm ∈ before, (arm.test s).result = .ok false) → (arm.test s).result = .ok true →
      ask s arms =
        ⟨(before ++ [arm]).flatMap fun arm => (arm.test s).events, .ok (some arm.body)⟩) ∧
    ((∀ arm ∈ arms, (arm.test s).result = .ok false) →
      ask s arms = ⟨arms.flatMap fun arm => (arm.test s).events, .ok none⟩) := by
  refine ⟨fun t' arms' h => ⟨fun hfree => ?_, not_stopped_of_nesting_le⟩,
    fun t' => nests_unchained t' arms, ?_, ?_, ask_of_forall⟩
  · rw [render] at hfree
    have hinner : ¬ Stopped (renderArms g s (some "<IfNode>") arms') depth :=
      fun hstopped => hfree (hstopped.tagged t')
    have hsame := renderArms_nests h hinner
    have houter : ¬ Stopped (renderArms g s (some "<IfNode>") arms) depth := by rwa [Stopped, ← hsame]
    rw [render, render]
    exact ((tagged_renderArms hinner t').trans hsame).trans (tagged_renderArms houter t).symm
  · rw [render, renderArms_eq_ask]
    rfl
  · rintro before arm after rfl hbefore harm
    exact ask_append hbefore harm after

/-- Three conditions and a last branch, as three choices inside one another of which the limit
allows no more: the conditions are asked in order up to the one that holds, each of them once. -/
theorem render_nested_choices_three :
    let t : Token := ⟨.block, "if a", 1, none⟩
    let word : String → List Node := fun w => [.text ⟨.text, w, 1, none⟩]
    let asks : String → Option Expr := fun name => some (.path (.single name))
    let arms : List Arm := [.mk (asks "a") (word "x"), .mk (asks "b") (word "y"),
      .mk (asks "c") (word "z"), .mk none (word "w")]
    let arms' : List Arm := [.mk (asks "a") (word "x"), .mk none [.choice t
      [.mk (asks "b") (word "y"), .mk none [.choice t
        [.mk (asks "c") (word "z"), .mk none (word "w")]]]]]
    let s : Scope := ⟨[], [("c", .bool true)]⟩
    unchained t arms = arms' ∧ nesting (.choice t arms') = 3 ∧
      render ⟨[], false, 3, 9⟩ s (.choice t arms') 0 = render ⟨[], false, 3, 9⟩ s (.choice t arms) 0 ∧
      render ⟨[], false, 3, 9⟩ s (.choice t arms) 0 =
        (0, ⟨[.lookupFailed (.single "a"), .lookupFailed (.single "b")], .ok "z"⟩) := by
  intro t word asks arms arms' s
  obtain ⟨hnested, hunchained, -⟩ :=
    render_nested_choices (g := ⟨[], false, 3, 9⟩) s 0 t arms
  have hnests : Nests arms arms' := hunchained t
  obtain ⟨hrender, hfree⟩ := hnested t arms' hnests
  exact ⟨rfl, rfl, hrender (hfree (by decide)), rfl⟩

end Node
end Quill
