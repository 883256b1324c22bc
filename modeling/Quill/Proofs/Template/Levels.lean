import Quill.Proofs.Template.Renderings

/-!
Renderings from different counts of blocks.

A rendering comes back to the count that it begins with, and the count decides nothing but where the
limit stops it.  So what is rendered from a count is what is rendered from a lower one, unless the
limit stops it at the higher one (`Steady`).
-/

namespace Quill

open Render

/-! ## Stopping at the limit -/

def RenderFailure.IsLimit : RenderFailure → Prop
  | .tooDeep .. => True
  | .fault f => f = .exhausted
  | .filter .. => False

theorem RenderFailure.isLimit_beyond (limit : Int) (block : Option String) :
    (beyond limit block).IsLimit := by
  cases block with
  | none => rfl
  | some block => trivial

theorem RenderFailure.isLimit_tag {e : RenderFailure} (h : e.IsLimit) (t : Token) :
    (e.tag t).IsLimit := by
  cases e with
  | fault f => exact h
  | filter name cause old => exact h
  | tooDeep limit block old => trivial

namespace Render

variable {α β : Type}

/-- Whether the limit on blocks stops a computation that begins with a count. -/
def Stopped (r : Render α) (depth : Nat) : Prop :=
  ∃ e, (r depth).2.result = .error e ∧ e.IsLimit

theorem Stopped.bind {r : Render α} {depth : Nat} (h : Stopped r depth) (f : α → Render β) :
    Stopped (r >>= f) depth := by
  obtain ⟨e, h, hlimit⟩ := h
  exact ⟨e, result_bind_eq_error.mpr (.inl h), hlimit⟩

theorem Stopped.of_tail {r : Render α} {f : α → Render β} {depth : Nat} {a : α}
    (ha : (r depth).2.result = .ok a) (h : Stopped (f a) (r depth).1) :
    Stopped (r >>= f) depth := by
  obtain ⟨e, h, hlimit⟩ := h
  exact ⟨e, result_bind_eq_error.mpr (.inr ⟨a, ha, h⟩), hlimit⟩

theorem Stopped.map {r : Render α} {depth : Nat} (h : Stopped r depth) (φ : α → β) :
    Stopped (φ <$> r) depth := by
  obtain ⟨e, h, hlimit⟩ := h
  exact ⟨e, Outcome.map_eq_error.mpr h, hlimit⟩

theorem Stopped.tagged {r : Render α} {depth : Nat} (h : Stopped r depth) (t : Token) :
    Stopped (tagged t r) depth := by
  obtain ⟨e, h, hlimit⟩ := h
  exact ⟨e.tag t, Outcome.mapError_eq_error.mpr ⟨e, h, rfl⟩, RenderFailure.isLimit_tag hlimit t⟩

/-- What follows a computation may be replaced where the limit does not stop it. -/
theorem bind_apply_congr {r : Render α} {f f' : α → Render β} {depth : Nat}
    (hfree : ¬ Stopped (r >>= f) depth)
    (h : ∀ a, ¬ Stopped (f a) (r depth).1 → f a (r depth).1 = f' a (r depth).1) :
    (r >>= f) depth = (r >>= f') depth := by
  cases hresult : (r depth).2.result with
  | error e => rw [bind_apply_of_error hresult, bind_apply_of_error hresult]
  | ok a =>
    have ha := h a fun hstopped => hfree (.of_tail hresult hstopped)
    rw [bind_apply_of_ok hresult, bind_apply_of_ok hresult, ha]

theorem stopped_nested_of_le {limit : Int} {depth : Nat} (h : limit ≤ (depth : Int))
    (block : Option String) (body : Render α) : Stopped (nested limit block body) depth :=
  ⟨_, congrArg Trace.result (result_nested_of_le h block body),
    RenderFailure.isLimit_beyond limit block⟩

/-! ## Lower counts -/

/-- A computation that comes back to the count that it began with, and does what it does from a
higher count unless the limit stops it there. -/
structure Steady (r : Render α) : Prop where
  level : ∀ depth, (r depth).1 = depth
  lower : ∀ depth k, ¬ Stopped r (depth + k) → (r depth).2 = (r (depth + k)).2

theorem steady_ofTrace (t : Trace RenderFailure α) : Steady (ofTrace t) :=
  ⟨fun _ => rfl, fun _ _ _ => rfl⟩

theorem steady_pure (a : α) : Steady (pure a) := steady_ofTrace (pure a)

theorem steady_ofValueTrace (t : Trace Fault α) : Steady (ofValueTrace t) := steady_ofTrace _

theorem Steady.map {r : Render α} (h : Steady r) (φ : α → β) : Steady (φ <$> r) := by
  refine ⟨fun depth => h.level depth, fun depth k hfree => ?_⟩
  rw [map_apply, map_apply, h.lower depth k fun hstopped => hfree (hstopped.map φ)]

theorem Steady.bind {r : Render α} {f : α → Render β} (hr : Steady r) (hf : ∀ a, Steady (f a)) :
    Steady (r >>= f) := by
  refine ⟨level_bind hr.level fun a => (hf a).level, fun depth k hfree => ?_⟩
  have hfirst := hr.lower depth k fun hstopped => hfree (hstopped.bind f)
  cases hresult : (r (depth + k)).2.result with
  | error e => rw [bind_apply_of_error hresult, bind_apply_of_error (hfirst ▸ hresult), hfirst]
  | ok a =>
    have hsecond := (hf a).lower depth k fun hstopped =>
      hfree (.of_tail hresult (by rwa [hr.level]))
    rw [bind_apply_of_ok hresult, bind_apply_of_ok (hfirst ▸ hresult), hr.level, hr.level, hfirst,
      hsecond]

theorem Steady.tagged {r : Render α} (h : Steady r) (t : Token) : Steady (tagged t r) := by
  refine ⟨fun depth => h.level depth, fun depth k hfree => ?_⟩
  have hsame := h.lower depth k fun hstopped => hfree (hstopped.tagged t)
  exact congrArg (fun u : Trace RenderFailure α =>
    (⟨u.events, u.result.mapError (.tag t)⟩ : Trace RenderFailure α)) hsame

theorem Steady.nested {body : Render α} (h : Steady body) (limit : Int) (block : Option String) :
    Steady (nested limit block body) := by
  constructor
  case level =>
    intro depth
    rw [Render.nested]
    split
    · rfl
    · next inner hinner =>
      have hdepth := Nesting.leave_enter hinner
      obtain ⟨_, depth'⟩ := inner
      rw [Nesting.leave, Nesting.mk.injEq] at hdepth
      dsimp only
      rw [h.level]
      exact hdepth.2
  case lower =>
    intro depth k hfree
    rcases Int.lt_or_le ((depth + k : Nat) : Int) limit with hlt | hle
    · rw [result_nested_of_lt (by omega), result_nested_of_lt hlt, Nat.add_right_comm]
      refine h.lower (depth + 1) k fun hstopped => hfree ?_
      rw [Stopped, result_nested_of_lt hlt, Nat.add_right_comm]
      exact hstopped
    · exact absurd (stopped_nested_of_le hle block body) hfree

theorem steady_forEach {body : Value → Render String} (h : ∀ v, Steady (body v))
    (elements : List Value) : Steady (forEach body elements) := by
  induction elements with
  | nil => exact steady_pure ""
  | cons v rest ih => exact (h v).bind fun first => ih.map (first ++ ·)

theorem steady_applyStage (filters : Registry) (s : Scope) (v : Value) (stage : Stage) :
    Steady (Pipeline.applyStage filters s v stage) := by
  rw [Pipeline.applyStage]
  cases filters.get? stage.name with
  | none => exact (steady_ofTrace _).bind fun _ => steady_pure v
  | some filter =>
    refine (steady_ofValueTrace _).bind fun arguments => ?_
    cases filter.apply v arguments with
    | ok result => exact steady_pure result
    | error cause => exact steady_ofTrace _

theorem steady_run (filters : Registry) (s : Scope) (p : Pipeline) : Steady (p.run filters s) := by
  refine (steady_ofValueTrace _).bind fun v => ?_
  generalize p.stages = stages
  induction stages generalizing v with
  | nil => exact steady_pure v
  | cons stage rest ih =>
    rw [List.foldlM_cons]
    exact (steady_applyStage filters s v stage).bind ih

end Render

namespace Node

variable {g : Setting}

mutual

theorem steady_render (s : Scope) (n : Node) : Steady (render g s n) := by
  match n with
  | .text t =>
    rw [render]
    exact steady_pure _
  | .output t p =>
    rw [render]
    refine ((steady_run g.filters s p).bind fun v => ?_).tagged t
    exact (steady_ofValueTrace _).bind fun _ => steady_pure _
  | .loop t name items body =>
    have hbody : ∀ item, Steady (renderAll g (s.push name item) body) :=
      fun item => steady_renderAll (s.push name item) body
    rw [render]
    refine ((steady_ofValueTrace _).bind fun v => ?_).tagged t
    cases v.elements? with
    | none => exact steady_pure ""
    | some elements => exact (steady_forEach hbody elements).nested _ _
  | .choice t arms =>
    rw [render]
    exact (steady_renderArms s _ arms).tagged t

/-- Nodes are rendered from a count of blocks as they are from every higher one at which the limit
does not stop them. -/
theorem steady_renderAll (s : Scope) (nodes : List Node) : Steady (renderAll g s nodes) := by
  match nodes with
  | [] =>
    rw [renderAll]
    exact steady_pure ""
  | n :: rest =>
    rw [renderAll]
    exact (steady_render s n).bind fun first => (steady_renderAll s rest).map (first ++ ·)

theorem steady_renderArms (s : Scope) (block : Option String) (arms : List Arm) :
    Steady (renderArms g s block arms) := by
  match arms with
  | [] =>
    rw [renderArms]
    exact steady_pure ""
  | .mk none body :: rest =>
    rw [renderArms]
    exact (steady_renderAll s body).nested _ _
  | .mk (some condition) body :: rest =>
    rw [renderArms]
    refine (steady_ofValueTrace _).bind fun taken => ?_
    cases taken with
    | true => exact (steady_renderAll s body).nested _ _
    | false => exact steady_renderArms s block rest

end

end Node
end Quill
