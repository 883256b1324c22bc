import Quill.Proofs.Template.Grammar
import Quill.Template

/-!
Trees with other tokens, rendered further in.

Tokens may be replaced by others of the same kind and contents, which stand elsewhere.  The tree
that they spell differs from the first one in its tokens only, and when it is rendered `k` blocks
further in under a limit that is higher by `k`, it does what the first one does.  A failure then
carries the other tokens and the other limit.
-/

namespace Quill

/-- A replacement of tokens that keeps their kinds and contents. -/
structure Token.Keeps (f : Token → Token) : Prop where
  kind : ∀ t, (f t).kind = t.kind
  contents : ∀ t, (f t).contents = t.contents

namespace Node

mutual

def mapTokens (f : Token → Token) : Node → Node
  | .text t => .text (f t)
  | .output t p => .output (f t) p
  | .loop t name items body => .loop (f t) name items (mapTokensOf f body)
  | .choice t arms => .choice (f t) (mapTokensOfArms f arms)

def mapTokensOf (f : Token → Token) : List Node → List Node
  | [] => []
  | n :: rest => mapTokens f n :: mapTokensOf f rest

def mapTokensOfArms (f : Token → Token) : List Arm → List Arm
  | [] => []
  | .mk condition body :: rest => .mk condition (mapTokensOf f body) :: mapTokensOfArms f rest

end

theorem length_mapTokensOf (f : Token → Token) (nodes : List Node) :
    (mapTokensOf f nodes).length = nodes.length := by
  induction nodes with
  | nil => rfl
  | cons n rest ih => simp only [mapTokensOf, List.length_cons, ih]

/-- The quoted form of a loop says nothing about its tokens. -/
theorem quoted?_loop_mapTokens (f : Token → Token) (t : Token) (name : String) (items : Expr)
    (body : List Node) (room : Nat) :
    (Node.loop (f t) name items (mapTokensOf f body)).quoted? room =
      (Node.loop t name items body).quoted? room := by
  rw [quoted?, quoted?, length_mapTokensOf]

end Node

/-! ## Derivations -/

section Derivations

variable {f : Token → Token}

theorem Token.IsBare.map (hf : Token.Keeps f) {t : Token} {word : String} (h : t.IsBare word) :
    (f t).IsBare word :=
  ⟨(hf.kind t).trans h.1, (hf.contents t).trans h.2⟩

theorem Token.IsCondition.map (hf : Token.Keeps f) {t : Token} {word : String} {e : Expr}
    (h : t.IsCondition word e) : (f t).IsCondition word e := by
  rw [Token.IsCondition, hf.kind, hf.contents]
  exact h

theorem Token.IsLoop.map (hf : Token.Keeps f) {t : Token} {name : String} {items : Expr}
    (h : t.IsLoop name items) : (f t).IsLoop name items := by
  rw [Token.IsLoop, hf.kind, hf.contents]
  exact h

theorem Token.IsOutput.map (hf : Token.Keeps f) {t : Token} {p : Pipeline} (h : t.IsOutput p) :
    (f t).IsOutput p := by
  rw [Token.IsOutput, hf.kind, hf.contents]
  exact h

namespace Template

open Node

mutual

theorem Spells.mapTokens (hf : Token.Keeps f) {tokens : List Token} {nodes : List Node}
    (h : Spells tokens nodes) : Spells (tokens.map f) (mapTokensOf f nodes) := by
  match h with
  | .nil => exact .nil
  | .text ht h => exact .text ((hf.kind _).trans ht) (h.mapTokens hf)
  | .output ht h => exact .output (ht.map hf) (h.mapTokens hf)
  | .loop ht hbody hstop h =>
    have hloop := Spells.loop (ht.map hf) (hbody.mapTokens hf) (hstop.map hf) (h.mapTokens hf)
    simpa only [List.cons_append, List.map_cons, List.map_append, mapTokensOf,
      Node.mapTokens] using hloop
  | .choice ht hbody harms h =>
    have hchoice := Spells.choice (ht.map hf) (hbody.mapTokens hf) (harms.mapTokens hf)
      (h.mapTokens hf)
    simpa only [List.cons_append, List.map_cons, List.map_append, mapTokensOf,
      Node.mapTokens, mapTokensOfArms] using hchoice

theorem SpellsArms.mapTokens (hf : Token.Keeps f) {tokens : List Token} {arms : List Arm}
    (h : SpellsArms tokens arms) : SpellsArms (tokens.map f) (mapTokensOfArms f arms) := by
  match h with
  | .close hstop => exact .close (hstop.map hf)
  | .condition ht hbody harms =>
    have hnext := SpellsArms.condition (ht.map hf) (hbody.mapTokens hf) (harms.mapTokens hf)
    simpa only [List.cons_append, List.map_cons, List.map_append, mapTokensOfArms] using hnext
  | .default ht hbody hstop =>
    have hlast := SpellsArms.default (ht.map hf) (hbody.mapTokens hf) (hstop.map hf)
    simpa only [List.cons_append, List.map_cons, List.map_append, List.map_nil,
      mapTokensOfArms] using hlast

end

end Template

end Derivations

/-! ## Renderings further in -/

def RenderFailure.moved (f : Token → Token) (k : Nat) : RenderFailure → RenderFailure
  | .fault c => .fault c
  | .filter name cause t => .filter name cause (t.map f)
  | .tooDeep limit block t => .tooDeep (limit + k) block (t.map f)

theorem RenderFailure.moved_tag (f : Token → Token) (k : Nat) (t : Token) (e : RenderFailure) :
    (e.tag t).moved f k = (e.moved f k).tag (f t) := by
  cases e with
  | fault c => rfl
  | filter name cause old => cases old <;> rfl
  | tooDeep limit block old => cases old <;> rfl

def Setting.deeper (g : Setting) (k : Nat) : Setting := { g with maxDepth := g.maxDepth + k }

def Trace.moved {α : Type} (f : Token → Token) (k : Nat) (t : Trace RenderFailure α) :
    Trace RenderFailure α :=
  ⟨t.events, t.result.mapError (.moved f k)⟩

namespace Render

variable {α β : Type} {f : Token → Token} {k : Nat}

/-- A rendering that comes back to the count it started from, and one that does the same when it
starts `k` blocks further in, its failures moved. -/
structure Moved (f : Token → Token) (k : Nat) (q r : Render α) : Prop where
  level : ∀ depth, (q depth).1 = depth
  further : ∀ depth, r (depth + k) = (depth + k, (q depth).2.moved f k)

theorem Moved.result_eq_ok_iff {q r : Render α} (h : Moved f k q r) {depth : Nat} {a : α} :
    (r (depth + k)).2.result = .ok a ↔ (q depth).2.result = .ok a := by
  rw [h.further]
  exact Outcome.mapError_eq_ok

theorem moved_ofTrace {t u : Trace RenderFailure α} (h : u = t.moved f k) :
    Moved f k (ofTrace t) (ofTrace u) := by
  subst h
  exact ⟨fun _ => rfl, fun _ => rfl⟩

theorem moved_pure (a : α) : Moved f k (pure a) (pure a) := moved_ofTrace rfl

theorem moved_ofValueTrace (t : Trace Fault α) :
    Moved f k (ofValueTrace t) (ofValueTrace t) := by
  refine moved_ofTrace ?_
  rcases t with ⟨events, _ | a⟩
  · rfl
  · rfl

theorem Moved.bind {x y : Render α} {p q : α → Render β} (h : Moved f k x y)
    (hnext : ∀ a, Moved f k (p a) (q a)) : Moved f k (x >>= p) (y >>= q) := by
  -- Whether the first part fails is the same on both sides.
  have cases : ∀ depth, (∃ e, (x depth).2.result = .error e) ∨ ∃ a, (x depth).2.result = .ok a := by
    intro depth
    cases (x depth).2.result with
    | error e => exact .inl ⟨e, rfl⟩
    | ok a => exact .inr ⟨a, rfl⟩
  refine ⟨fun depth => ?_, fun depth => ?_⟩
  · rcases cases depth with ⟨e, he⟩ | ⟨a, ha⟩
    · rw [bind_apply_of_error he, h.level]
    · rw [bind_apply_of_ok ha, h.level]
      exact (hnext a).level depth
  · have hy := h.further depth
    rcases cases depth with ⟨e, he⟩ | ⟨a, ha⟩
    · have hmoved : (y (depth + k)).2.result = .error (e.moved f k) := by
        rw [hy, Trace.moved, he]
        rfl
      rw [bind_apply_of_error he, bind_apply_of_error hmoved, hy]
      rfl
    · have hmoved : (y (depth + k)).2.result = .ok a := by
        rw [hy, Trace.moved, ha]
        rfl
      rw [bind_apply_of_ok ha, bind_apply_of_ok hmoved, hy, h.level]
      dsimp only
      rw [(hnext a).further depth]
      rfl

theorem Moved.map {x y : Render α} (h : Moved f k x y) (φ : α → β) :
    Moved f k (φ <$> x) (φ <$> y) := by
  refine ⟨fun depth => h.level depth, fun depth => ?_⟩
  rw [map_apply, map_apply, h.further]
  rcases (x depth).2 with ⟨events, _ | a⟩
  · rfl
  · rfl

theorem Moved.tagged {x y : Render α} (h : Moved f k x y) (t : Token) :
    Moved f k (tagged t x) (tagged (f t) y) := by
  refine ⟨fun depth => h.level depth, fun depth => ?_⟩
  show (_, (⟨(y (depth + k)).2.events, _⟩ : Trace RenderFailure α)) = (_, Trace.moved f k ⟨_, _⟩)
  rw [h.further]
  rcases (x depth).2 with ⟨events, e | a⟩
  · show (_, (⟨events, .error ((e.moved f k).tag (f t))⟩ : Trace RenderFailure α)) = _
    rw [← RenderFailure.moved_tag]
    rfl
  · rfl

theorem Moved.nested {x y : Render α} (h : Moved f k x y) (limit : Int) (block : Option String) :
    Moved f k (nested limit block x) (nested (limit + k) block y) := by
  have henter : ∀ depth : Nat, (limit + k ≤ Int.ofNat (depth + k)) ↔ limit ≤ Int.ofNat depth := by
    intro depth
    simp only [Int.ofNat_eq_natCast, Int.natCast_add]
    omega
  refine ⟨fun depth => ?_, fun depth => ?_⟩
  · rw [Render.nested, Nesting.enter?]
    by_cases hlimit : limit ≤ Int.ofNat depth
    · rw [if_pos hlimit]
    · rw [if_neg hlimit]
      show (x (depth + 1)).1 - 1 = depth
      rw [h.level]
      rfl
  · rw [Render.nested, Render.nested, Nesting.enter?, Nesting.enter?]
    dsimp only
    by_cases hlimit : limit ≤ Int.ofNat depth
    · rw [if_pos hlimit, if_pos ((henter depth).mpr hlimit)]
      cases block <;> rfl
    · rw [if_neg hlimit, if_neg (mt (henter depth).mp hlimit)]
      show ((y (depth + k + 1)).1 - 1, (y (depth + k + 1)).2) = _
      rw [show depth + k + 1 = depth + 1 + k by omega, h.further]
      show (depth + 1 + k - 1, _) = (_, _)
      rw [show depth + 1 + k - 1 = depth + k by omega]

theorem moved_forEach {body body' : Value → Render String}
    (h : ∀ item, Moved f k (body item) (body' item)) (items : List Value) :
    Moved f k (forEach body items) (forEach body' items) := by
  induction items with
  | nil => exact moved_pure ""
  | cons item rest ih => exact (h item).bind fun first => ih.map (first ++ ·)

theorem moved_applyStage (filters : Registry) (s : Scope) (v : Value) (stage : Stage) :
    Moved f k (Pipeline.applyStage filters s v stage) (Pipeline.applyStage filters s v stage) := by
  rw [Pipeline.applyStage]
  cases filters.get? stage.name with
  | none => exact (moved_ofTrace rfl).bind fun _ => moved_pure v
  | some filter =>
    refine (moved_ofValueTrace _).bind fun arguments => ?_
    cases filter.apply v arguments with
    | ok result => exact moved_pure result
    | error cause => exact moved_ofTrace rfl

theorem moved_run (filters : Registry) (s : Scope) (p : Pipeline) :
    Moved f k (p.run filters s) (p.run filters s) := by
  refine (moved_ofValueTrace _).bind fun v => ?_
  generalize p.stages = stages
  induction stages generalizing v with
  | nil => exact moved_pure v
  | cons stage rest ih =>
    rw [List.foldlM_cons]
    exact (moved_applyStage filters s v stage).bind ih

end Render

/-! ## Trees further in -/

namespace Node

open Render

variable {f : Token → Token} {k : Nat} {g : Setting}

mutual

theorem render_moved (hf : Token.Keeps f) (s : Scope) (n : Node) :
    Moved f k (render g s n) (render (g.deeper k) s (mapTokens f n)) := by
  match n with
  | .text t =>
    rw [mapTokens, render, render, hf.contents]
    exact moved_pure t.contents
  | .output t p =>
    rw [mapTokens, render, render]
    exact ((moved_run g.filters s p).bind fun v =>
      (moved_ofValueTrace _).bind fun _ => moved_pure _).tagged t
  | .loop t name items body =>
    rw [mapTokens, render, render, quoted?_loop_mapTokens]
    refine Moved.tagged ((moved_ofValueTrace _).bind fun v => ?_) t
    cases v.elements? with
    | none => exact moved_pure ""
    | some elements =>
      have hbody := fun item => renderAll_moved hf (s.push name item) body
      exact (moved_forEach hbody elements).nested _ _
  | .choice t arms =>
    rw [mapTokens, render, render]
    exact (renderArms_moved hf s _ arms).tagged t

theorem renderAll_moved (hf : Token.Keeps f) (s : Scope) (nodes : List Node) :
    Moved f k (renderAll g s nodes) (renderAll (g.deeper k) s (mapTokensOf f nodes)) := by
  match nodes with
  | [] => rw [mapTokensOf, renderAll, renderAll]; exact moved_pure ""
  | n :: rest =>
    rw [mapTokensOf, renderAll, renderAll]
    exact (render_moved hf s n).bind fun first => (renderAll_moved hf s rest).map (first ++ ·)

theorem renderArms_moved (hf : Token.Keeps f) (s : Scope) (block : Option String) (arms : List Arm) :
    Moved f k (renderArms g s block arms)
      (renderArms (g.deeper k) s block (mapTokensOfArms f arms)) := by
  match arms with
  | [] => rw [mapTokensOfArms, renderArms, renderArms]; exact moved_pure ""
  | .mk none body :: rest =>
    rw [mapTokensOfArms, renderArms, renderArms]
    exact (renderAll_moved hf s body).nested _ _
  | .mk (some condition) body :: rest =>
    rw [mapTokensOfArms, renderArms, renderArms]
    refine (moved_ofValueTrace _).bind fun taken => ?_
    by_cases h : taken = true
    · rw [if_pos h, if_pos h]
      exact (renderAll_moved hf s body).nested _ _
    · rw [if_neg h, if_neg h]
      exact renderArms_moved hf s block rest

end

/-- A tree whose tokens are replaced does the same where it stands. -/
theorem renderAll_mapTokensOf (hf : Token.Keeps f) (s : Scope) (nodes : List Node) :
    Moved f 0 (renderAll g s nodes) (renderAll g s (mapTokensOf f nodes)) := by
  have hzero : g.deeper 0 = g := by simp [Setting.deeper]
  have hmoved : Moved f 0 (renderAll g s nodes) (renderAll (g.deeper 0) s _) :=
    renderAll_moved hf s nodes
  rwa [hzero] at hmoved

/-! ## The count of blocks -/

/-- A rendering comes back to the count of blocks that it started from. -/
theorem level_render (s : Scope) (n : Node) (depth : Nat) : (render g s n depth).1 = depth :=
  have hmoved : Moved id 0 (render g s n) _ := render_moved ⟨fun _ => rfl, fun _ => rfl⟩ s n
  hmoved.level depth

theorem level_renderAll (s : Scope) (nodes : List Node) (depth : Nat) :
    (renderAll g s nodes depth).1 = depth :=
  have hmoved : Moved id 0 (renderAll g s nodes) _ :=
    renderAll_moved ⟨fun _ => rfl, fun _ => rfl⟩ s nodes
  hmoved.level depth

end Node
end Quill
