import Quill.Proofs.Expr.Faults
import Quill.Proofs.Template.Relocation
import Quill.Proofs.Template.Renderings

/-!
The nodes that a rendering comes to, and where it fails.

A block that is entered renders the lists of nodes inside it, each in a scope of its own: a loop its
body for every item, a choice the branch that is taken.  A rendering visits a node when all that
comes before it has a result.  It fails exactly when one of the nodes that it visits stops it, and
the failure is the one that the node itself gives.
-/

namespace Quill

open Render

/-! ## Failures of values -/

abbrev NeverExhausted {α : Type} (x : Except Fault α) : Prop :=
  Outcome.FailsWith (· ≠ .exhausted) x

theorem Expr.outcome_neverExhausted (s : Scope) (e : Expr) : NeverExhausted (e.outcome s) := by
  intro f h
  obtain ⟨sub, -, hraises⟩ := outcome_eq_error_iff.mp h
  cases hraises with
  | not | and | or | join => exact Fault.noConfusion

theorem Argument.eval_neverExhausted (s : Scope) (a : Argument) :
    NeverExhausted (a.eval s).result := by
  cases a with
  | literal l => exact Outcome.failsWith_ok _
  | lookup path source =>
    rw [Argument.eval, Path.find]
    cases s.resolve? path <;> exact Outcome.failsWith_ok _

theorem Value.truth_neverExhausted (v : Value) : NeverExhausted v.truth.result := by
  intro f h
  obtain ⟨rfl, -⟩ := Value.truth_result_eq_error_iff.mp h
  exact Fault.noConfusion

theorem Value.output_neverExhausted (v : Value) : NeverExhausted v.output := by
  intro f h
  obtain rfl := Value.output_error h
  exact Fault.noConfusion

def RenderFailure.IsFault : RenderFailure → Prop
  | .fault f => f ≠ .exhausted
  | .filter _ _ token => token = none
  | .tooDeep .. => False

namespace Render

variable {α β : Type}

/-- Whether a rendering fails only through faults. -/
def OnlyFaults (r : Render α) : Prop :=
  ∀ depth, Outcome.FailsWith RenderFailure.IsFault (r depth).2.result

theorem onlyFaults_pure (a : α) : OnlyFaults (pure a) := fun _ => Outcome.failsWith_ok a

theorem onlyFaults_ofValueTrace {t : Trace Fault α} (ht : NeverExhausted t.result) :
    OnlyFaults (ofValueTrace t) := by
  intro depth e h
  rw [result_ofValueTrace] at h
  obtain ⟨f, hf, rfl⟩ := Outcome.mapError_eq_error.mp h
  exact ht f hf

theorem OnlyFaults.bind {r : Render α} {f : α → Render β} (hr : OnlyFaults r)
    (hf : ∀ a, OnlyFaults (f a)) : OnlyFaults (r >>= f) := by
  intro depth
  rw [result_bind]
  exact (hr depth).bind fun a _ => hf a _

theorem evalArguments_neverExhausted (s : Scope) (arguments : List Argument) :
    NeverExhausted (Pipeline.evalArguments s arguments).result := by
  induction arguments with
  | nil => exact Outcome.failsWith_ok []
  | cons a rest ih =>
    rw [Pipeline.evalArguments, Trace.result_bind]
    refine (a.eval_neverExhausted s).bind fun v _ f h => ?_
    exact ih f (Outcome.map_eq_error.mp h)

theorem onlyFaults_applyStage (filters : Registry) (s : Scope) (v : Value) (stage : Stage) :
    OnlyFaults (Pipeline.applyStage filters s v stage) := by
  rw [Pipeline.applyStage]
  cases filters.get? stage.name with
  | none => exact OnlyFaults.bind (fun _ => Outcome.failsWith_ok ()) fun _ => onlyFaults_pure v
  | some filter =>
    refine (onlyFaults_ofValueTrace (evalArguments_neverExhausted s _)).bind fun arguments => ?_
    cases filter.apply v arguments with
    | ok result => exact onlyFaults_pure result
    | error cause => exact fun _ => Outcome.failsWith_error rfl

theorem onlyFaults_run (filters : Registry) (s : Scope) (p : Pipeline) :
    OnlyFaults (p.run filters s) := by
  refine (onlyFaults_ofValueTrace (Expr.outcome_neverExhausted s p.subject)).bind fun v => ?_
  generalize p.stages = stages
  induction stages generalizing v with
  | nil => exact onlyFaults_pure v
  | cons stage rest ih =>
    rw [List.foldlM_cons]
    exact (onlyFaults_applyStage filters s v stage).bind ih

end Render

/-! ## What a node renders -/

namespace Node

def taken (s : Scope) : List Arm → Except Fault (Option (List Node))
  | [] => .ok none
  | .mk none body :: _ => .ok (some body)
  | .mk (some condition) body :: rest => do
    let v ← condition.outcome s
    if ← v.truth.result then return some body else taken s rest

/-- The lists of nodes that a block renders when it is entered, with their scopes; none if there
is nothing to enter. -/
def turns (s : Scope) : Node → Except Fault (Option (List (Scope × List Node)))
  | .text _ => .ok none
  | .output _ _ => .ok none
  | .loop _ name items body => do
    let v ← items.outcome s
    return v.elements?.map fun elements => elements.map fun item => (s.push name item, body)
  | .choice _ arms => do
    let body ← taken s arms
    return body.map fun body => [(s, body)]

/-- What a node gives without entering a block. -/
def plain (g : Setting) (s : Scope) : Node → Render String
  | .text t => pure t.contents
  | .output _ p => do
    let v ← p.run g.filters s
    v.write g.autoescape
  | .loop .. => pure ""
  | .choice .. => pure ""

theorem onlyFaults_plain (g : Setting) (s : Scope) (n : Node) : OnlyFaults (n.plain g s) := by
  cases n with
  | text t => exact onlyFaults_pure _
  | output t p =>
    exact (onlyFaults_run g.filters s p).bind fun v =>
      (onlyFaults_ofValueTrace (Value.output_neverExhausted v)).bind fun _ => onlyFaults_pure _
  | loop t name items body => exact onlyFaults_pure _
  | choice t arms => exact onlyFaults_pure _

def renderTurns (g : Setting) : List (Scope × List Node) → Render String
  | [] => pure ""
  | (s, body) :: rest => do
    let first ← renderAll g s body
    (first ++ ·) <$> renderTurns g rest

variable {g : Setting} {s : Scope} {depth : Nat}

theorem forEach_eq_renderTurns (name : String) (body : List Node) (elements : List Value) :
    Render.forEach (fun item => renderAll g (s.push name item) body) elements =
      renderTurns g (elements.map fun item => (s.push name item, body)) := by
  induction elements with
  | nil => rfl
  | cons item rest ih => rw [Render.forEach, ih, List.map_cons, renderTurns]

theorem level_renderTurns (turns : List (Scope × List Node)) (depth : Nat) :
    (renderTurns g turns depth).1 = depth := by
  induction turns generalizing depth with
  | nil => rfl
  | cons turn rest ih =>
    rw [renderTurns]
    refine level_bind (level_renderAll turn.1 turn.2) (fun first depth => ?_) depth
    exact ih depth

/-- Branches come to what the one that is taken comes to, one block further in. -/
theorem result_renderArms (block : Option String) (arms : List Arm) (depth : Nat) :
    (renderArms g s block arms depth).2.result =
      match taken s arms with
      | .error f => .error (.fault f)
      | .ok none => .ok ""
      | .ok (some body) => (nested g.maxDepth block (renderAll g s body) depth).2.result := by
  induction arms with
  | nil => rw [renderArms]; rfl
  | cons arm rest ih =>
    obtain ⟨_ | condition, body⟩ := arm
    · rw [renderArms]
      rfl
    · have hlevel : ∀ depth, (ofValueTrace (do (← condition.eval s).truth) depth).1 = depth :=
        fun _ => rfl
      rw [renderArms, taken, result_bind, hlevel, result_ofValueTrace, Trace.result_bind,
        Expr.outcome]
      cases (condition.eval s).result with
      | error f => rfl
      | ok v =>
        show Except.mapError _ v.truth.result >>= _ = _
        simp only [Outcome.ok_bind]
        cases v.truth.result with
        | error f => rfl
        | ok taken =>
          cases taken with
          | false => exact ih
          | true => rfl

theorem result_renderTurns_singleton (body : List Node) (depth : Nat) :
    (renderTurns g [(s, body)] depth).2.result = (renderAll g s body depth).2.result := by
  rw [renderTurns, result_bind]
  cases (renderAll g s body depth).2.result with
  | error e => rfl
  | ok out => exact congrArg Except.ok String.append_empty

/-- A node is rendered by what it gives on its own, or by its turns if it is a block that is
entered. -/
theorem result_render (n : Node) (depth : Nat) :
    (render g s n depth).2.result =
      match n.turns s with
      | .error f => .error (.fault f)
      | .ok none => (plain g s n depth).2.result.mapError (.tag n.token)
      | .ok (some turns) =>
        (nested g.maxDepth (n.quoted? g.room) (renderTurns g turns) depth).2.result.mapError
          (.tag n.token) := by
  cases n with
  | text t => rw [render]; rfl
  | output t p => rw [render]; rfl
  | loop t name items body =>
    cases hitems : (items.eval s).result with
    | error f =>
      have hfault : (ofValueTrace (items.eval s) depth).2.result = .error (.fault f) := by
        rw [result_ofValueTrace, hitems]
        rfl
      rw [render, result_tagged, bind_apply_of_error hfault, turns, Expr.outcome, hitems]
      rfl
    | ok v =>
      have hvalue : (ofValueTrace (items.eval s) depth).2.result = .ok v := by
        rw [result_ofValueTrace, hitems]
        rfl
      rw [render, result_tagged, bind_apply_of_ok hvalue, turns, Expr.outcome, hitems]
      cases helements : v.elements? with
      | none =>
        rw [Outcome.ok_bind, helements]
        rfl
      | some elements =>
        rw [Outcome.ok_bind, helements]
        dsimp only
        rw [forEach_eq_renderTurns]
        rfl
  | choice t arms =>
    rw [render, result_tagged, result_renderArms, turns]
    cases taken s arms with
    | error f => rfl
    | ok taken =>
      cases taken with
      | none => rfl
      | some body =>
        show Except.mapError (.tag t : RenderFailure → RenderFailure)
            (nested _ _ (renderAll g s body) depth).2.result =
          Except.mapError (.tag t) (nested _ _ (renderTurns g [(s, body)]) depth).2.result
        rcases Int.lt_or_le (depth : Int) g.maxDepth with hlt | hle
        · rw [result_nested_of_lt hlt, result_nested_of_lt hlt, result_renderTurns_singleton]
        · rw [result_nested_of_le hle, result_nested_of_le hle]

/-- A node that is no block that is entered gives what it gives on its own. -/
theorem result_render_plain {n : Node} (h : n.turns s = .ok none) (depth : Nat) :
    (render g s n depth).2.result =
      (plain g s n depth).2.result.mapError (.tag n.token) := by
  rw [result_render, h]

theorem result_render_entered {n : Node} {turns : List (Scope × List Node)}
    (h : n.turns s = .ok (some turns)) {depth : Nat} (hdepth : (depth : Int) < g.maxDepth) :
    (render g s n depth).2.result =
      (renderTurns g turns (depth + 1)).2.result.mapError (.tag n.token) := by
  rw [result_render, h]
  dsimp only
  rw [result_nested_of_lt hdepth]

/-! ## Turns -/

theorem mem_of_taken {arms : List Arm} {body : List Node} (h : taken s arms = .ok (some body)) :
    ∃ condition, .mk condition body ∈ arms := by
  induction arms with
  | nil => cases h
  | cons arm rest ih =>
    obtain ⟨_ | condition, first⟩ := arm
    · cases h
      exact ⟨none, List.mem_cons_self⟩
    · rw [taken] at h
      obtain ⟨v, -, h⟩ := Outcome.bind_eq_ok.mp h
      obtain ⟨holds, -, h⟩ := Outcome.bind_eq_ok.mp h
      cases holds with
      | true =>
        cases h
        exact ⟨some condition, List.mem_cons_self⟩
      | false =>
        obtain ⟨other, hmem⟩ := ih h
        exact ⟨other, List.mem_cons_of_mem _ hmem⟩

def Holds : Node → List Node → Prop
  | .text _, _ => False
  | .output _ _, _ => False
  | .loop _ _ _ body, inner => inner = body
  | .choice _ arms, inner => ∃ condition, .mk condition inner ∈ arms

theorem holds_of_mem_turns {n : Node} {turns : List (Scope × List Node)}
    (h : n.turns s = .ok (some turns)) {turn : Scope × List Node} (hturn : turn ∈ turns) :
    n.Holds turn.2 := by
  cases n with
  | text t => cases h
  | output t p => cases h
  | loop t name items body =>
    rw [Node.turns] at h
    obtain ⟨v, -, h⟩ := Outcome.bind_eq_ok.mp h
    obtain ⟨elements, -, rfl⟩ := Option.map_eq_some_iff.mp (Except.ok.inj h)
    obtain ⟨item, -, rfl⟩ := List.mem_map.mp hturn
    exact rfl
  | choice t arms =>
    rw [Node.turns] at h
    obtain ⟨taken, htaken, h⟩ := Outcome.bind_eq_ok.mp h
    obtain ⟨body, rfl, rfl⟩ := Option.map_eq_some_iff.mp (Except.ok.inj h)
    obtain rfl := List.mem_singleton.mp hturn
    exact mem_of_taken htaken

theorem sizeOf_lt_of_holds {n : Node} {body : List Node} (h : n.Holds body) :
    sizeOf body < sizeOf n := by
  cases n with
  | text t => exact h.elim
  | output t p => exact h.elim
  | loop t name items inner =>
    obtain rfl : body = inner := h
    rw [Node.loop.sizeOf_spec]
    omega
  | choice t arms =>
    obtain ⟨condition, hmem⟩ := h
    have hlt := List.sizeOf_lt_of_mem hmem
    rw [Arm.mk.sizeOf_spec] at hlt
    rw [Node.choice.sizeOf_spec]
    omega

/-- What holds of a list of nodes when it holds of the rest and of all that the first one holds,
holds of every list of nodes. -/
theorem induction_on_bodies {motive : List Node → Prop} (nil : motive [])
    (cons : ∀ n rest, (∀ body, n.Holds body → motive body) → motive rest → motive (n :: rest))
    (nodes : List Node) : motive nodes := by
  induction hsize : sizeOf nodes using Nat.strongRecOn generalizing nodes with
  | ind size ih =>
    cases nodes with
    | nil => exact nil
    | cons n rest =>
      rw [List.cons.sizeOf_spec] at hsize
      refine cons n rest (fun body hbody => ?_) (ih (sizeOf rest) (by omega) rest rfl)
      have hbodySize := sizeOf_lt_of_holds hbody
      exact ih (sizeOf body) (by omega) body rfl

/-! ## Visits -/

/-- The nodes that a rendering comes to: each with the blocks around it, outermost first, the scope
that it is rendered in, and the count of blocks that it is rendered with. -/
inductive Visits (g : Setting) :
    Scope → Nat → List Node → List Node → Scope → Nat → Node → Prop
  | here {s : Scope} {depth : Nat} {n : Node} {rest : List Node} :
      Visits g s depth (n :: rest) [] s depth n
  | later {s s' : Scope} {depth depth' : Nat} {n m : Node} {rest blocks : List Node}
      {out : String} :
      (render g s n depth).2.result = .ok out →
      Visits g s (render g s n depth).1 rest blocks s' depth' m →
      Visits g s depth (n :: rest) blocks s' depth' m
  | inside {s inner s' : Scope} {depth depth' : Nat} {n m : Node}
      {rest body blocks : List Node} {before after : List (Scope × List Node)} {out : String} :
      n.turns s = .ok (some (before ++ (inner, body) :: after)) → (depth : Int) < g.maxDepth →
      (renderTurns g before (depth + 1)).2.result = .ok out →
      Visits g inner (renderTurns g before (depth + 1)).1 body blocks s' depth' m →
      Visits g s depth (n :: rest) (n :: blocks) s' depth' m

/-- How a node itself stops a rendering: what decides whether it is entered faults, what it gives
on its own fails, or it is a block that would be entered where the limit is reached. -/
inductive Stops (g : Setting) (s : Scope) (depth : Nat) (n : Node) : RenderFailure → Prop
  | fault {f : Fault} : n.turns s = .error f → Stops g s depth n (.fault f)
  | plain {e : RenderFailure} : n.turns s = .ok none →
      (plain g s n depth).2.result = .error e → Stops g s depth n (e.tag n.token)
  | beyond {turns : List (Scope × List Node)} : n.turns s = .ok (some turns) →
      g.maxDepth ≤ (depth : Int) →
      Stops g s depth n ((RenderFailure.beyond g.maxDepth (n.quoted? g.room)).tag n.token)

/-- The token of a failure is that of the node that stops the rendering, and no block around that
node replaces it. -/
theorem Stops.tag_eq {n : Node} {e : RenderFailure} (h : Stops g s depth n e) (t : Token) :
    e.tag t = e := by
  cases h with
  | fault => rfl
  | plain _ hplain =>
    rename_i c _
    cases c <;> rfl
  | beyond => cases n.quoted? g.room <;> rfl

/-- What stops a rendering is a fault outside of any filter, or it carries the token of the node. -/
theorem Stops.fault_or_token {n : Node} {e : RenderFailure} (h : Stops g s depth n e) :
    (∃ f, e = .fault f) ∨ e.token = some n.token := by
  cases h with
  | fault => exact .inl ⟨_, rfl⟩
  | @plain c _ hplain =>
    have hfault := onlyFaults_plain g s n depth c hplain
    cases c with
    | fault f => exact .inl ⟨f, rfl⟩
    | filter name cause token =>
      obtain rfl : token = none := hfault
      exact .inr rfl
    | tooDeep => exact hfault.elim
  | beyond =>
    cases n.quoted? g.room with
    | none => exact .inl ⟨.exhausted, rfl⟩
    | some block => exact .inr rfl

theorem Stops.result_render {n : Node} {e : RenderFailure} (h : Stops g s depth n e) :
    (render g s n depth).2.result = .error e := by
  cases h with
  | fault hturns => rw [Node.result_render, hturns]
  | plain hturns hplain =>
    rw [result_render_plain hturns, hplain]
    rfl
  | beyond hturns hdepth =>
    rw [Node.result_render, hturns]
    dsimp only
    rw [result_nested_of_le hdepth]
    rfl

/-- Turns fail at the first one that fails. -/
theorem result_renderTurns_eq_error_iff {turns : List (Scope × List Node)} {depth : Nat}
    {e : RenderFailure} :
    (renderTurns g turns depth).2.result = .error e ↔ ∃ before inner body after out,
      turns = before ++ (inner, body) :: after ∧ (renderTurns g before depth).2.result = .ok out ∧
        (renderAll g inner body (renderTurns g before depth).1).2.result = .error e := by
  induction turns with
  | nil =>
    constructor
    · intro h
      cases h
    · rintro ⟨before, inner, body, after, out, hturns, -⟩
      simp at hturns
  | cons turn rest ih =>
    obtain ⟨s, first⟩ := turn
    rw [renderTurns, result_bind_eq_error, level_renderAll]
    simp only [result_map, Outcome.map_eq_error, ih]
    constructor
    · rintro (hfirst | ⟨o, ho, before, inner, body, after, out, rfl, hbefore, hbody⟩)
      · exact ⟨[], s, first, rest, "", rfl, rfl, hfirst⟩
      · refine ⟨(s, first) :: before, inner, body, after, o ++ out, rfl, ?_, ?_⟩
        · rw [renderTurns, result_bind_eq_ok, level_renderAll]
          exact ⟨o, ho, result_map_eq_ok.mpr ⟨out, hbefore, rfl⟩⟩
        · rwa [level_renderTurns] at hbody ⊢
    · rintro ⟨before, inner, body, after, out, hturns, hbefore, hbody⟩
      cases before with
      | nil =>
        cases hturns
        exact .inl hbody
      | cons turn before =>
        cases hturns
        rw [renderTurns, result_bind_eq_ok, level_renderAll] at hbefore
        obtain ⟨o, ho, hrest⟩ := hbefore
        obtain ⟨out, hout, -⟩ := result_map_eq_ok.mp hrest
        refine .inr ⟨o, ho, before, inner, body, after, out, rfl, hout, ?_⟩
        rwa [level_renderTurns] at hbody ⊢

/-- A visited node that stops the rendering makes it fail. -/
theorem Visits.result_renderAll {s s' : Scope} {depth depth' : Nat} {nodes blocks : List Node}
    {n : Node} (h : Visits g s depth nodes blocks s' depth' n) {e : RenderFailure}
    (hstops : Stops g s' depth' n e) : (renderAll g s nodes depth).2.result = .error e := by
  induction h with
  | here =>
    rw [renderAll, result_bind_eq_error]
    exact .inl hstops.result_render
  | later hfirst _ ih =>
    rw [renderAll, result_bind_eq_error]
    exact .inr ⟨_, hfirst, Outcome.map_eq_error.mpr (ih hstops)⟩
  | @inside s inner _ depth _ m _ _ body _ before after out hturns hdepth hbefore _ ih =>
    have hfail : (renderTurns g (before ++ (inner, body) :: after) (depth + 1)).2.result =
        .error e := result_renderTurns_eq_error_iff.mpr ⟨_, _, _, _, _, rfl, hbefore, ih hstops⟩
    rw [renderAll, result_bind_eq_error, result_render_entered hturns hdepth, hfail]
    exact .inl (congrArg Except.error (hstops.tag_eq m.token))

/-- A node that fails stops the rendering itself, or one of its turns fails. -/
theorem stops_or_turn_fails {n : Node} {e : RenderFailure}
    (h : (render g s n depth).2.result = .error e) : Stops g s depth n e ∨
      ∃ before inner body after out c, n.turns s = .ok (some (before ++ (inner, body) :: after)) ∧
        (depth : Int) < g.maxDepth ∧ (renderTurns g before (depth + 1)).2.result = .ok out ∧
        (renderAll g inner body (renderTurns g before (depth + 1)).1).2.result = .error c ∧
        c.tag n.token = e := by
  cases hturns : n.turns s with
  | error f =>
    rw [Node.result_render, hturns] at h
    cases h
    exact .inl (.fault hturns)
  | ok entered =>
    cases entered with
    | none =>
      rw [result_render_plain hturns] at h
      obtain ⟨c, hc, rfl⟩ := Outcome.mapError_eq_error.mp h
      exact .inl (.plain hturns hc)
    | some turns =>
      rcases Int.lt_or_le (depth : Int) g.maxDepth with hlt | hle
      · rw [result_render_entered hturns hlt] at h
        obtain ⟨c, hc, hcause⟩ := Outcome.mapError_eq_error.mp h
        obtain ⟨before, inner, body, after, out, rfl, hbefore, hbody⟩ :=
          result_renderTurns_eq_error_iff.mp hc
        exact .inr ⟨before, inner, body, after, out, c, rfl, hlt, hbefore, hbody, hcause⟩
      · have hdeep : Stops g s depth n _ := .beyond hturns hle
        rw [hdeep.result_render] at h
        cases h
        exact .inl hdeep

/-- A rendering that fails comes to a node that stops it. -/
theorem exists_visits_of_error {nodes : List Node} {s : Scope} {depth : Nat} {e : RenderFailure}
    (h : (renderAll g s nodes depth).2.result = .error e) :
    ∃ blocks s' depth' n, Visits g s depth nodes blocks s' depth' n ∧ Stops g s' depth' n e := by
  induction nodes using induction_on_bodies generalizing s depth e with
  | nil =>
    rw [renderAll] at h
    cases h
  | cons n rest ihBodies ih =>
    rw [renderAll, result_bind_eq_error] at h
    rcases h with hfirst | ⟨out, hout, hrest⟩
    · rcases stops_or_turn_fails hfirst with
        hstops | ⟨before, inner, body, after, out, c, hturns, hlt, hbefore, hbody, rfl⟩
      · exact ⟨[], s, depth, n, .here, hstops⟩
      · have hholds : n.Holds body :=
          holds_of_mem_turns hturns (List.mem_append_right before List.mem_cons_self)
        obtain ⟨blocks, s', depth', m, hvisits, hstops⟩ := ihBodies body hholds hbody
        refine ⟨n :: blocks, s', depth', m, .inside hturns hlt hbefore hvisits, ?_⟩
        rwa [hstops.tag_eq]
    · obtain ⟨blocks, s', depth', m, hvisits, hstops⟩ := ih (Outcome.map_eq_error.mp hrest)
      exact ⟨blocks, s', depth', m, .later hout hvisits, hstops⟩

/-- A rendering fails exactly when it comes to a node that stops it, and with the failure of that
node. -/
theorem renderAll_eq_error_iff {s : Scope} {depth : Nat} {nodes : List Node} {e : RenderFailure} :
    (renderAll g s nodes depth).2.result = .error e ↔ ∃ blocks s' depth' n,
      Visits g s depth nodes blocks s' depth' n ∧ Stops g s' depth' n e := by
  constructor
  · exact exists_visits_of_error
  · rintro ⟨blocks, s', depth', n, hvisits, hstops⟩
    exact hvisits.result_renderAll hstops

end Node
end Quill
