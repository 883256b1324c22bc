import Quill.Proofs.Outcome
import Quill.Template

/-!
The laws of renderings, and relations on them: the values that one can end with, and one rendering
as the image of another.  Both follow the ways in which renderings are put together.
-/

namespace Quill
namespace Render

variable {α β γ : Type}

/-! ## Laws -/

/-- Renderings obey the laws of a monad. -/
instance : LawfulMonad Render := by
  refine .mk' Render ?idMap (fun _ _ => rfl) ?assoc (fun _ _ => rfl) (fun _ _ => rfl)
    (fun _ _ => rfl) ?pureComp fun _ _ => rfl
  case idMap =>
    intro α r
    funext depth
    rw [map_apply, id_map]
  case assoc =>
    intro α β γ r f h
    funext depth
    rcases hr : r depth with ⟨after, events, e | a⟩
    · simp [bind, hr]
    · rcases hf : f a after with ⟨last, others, e | b⟩ <;> simp [bind, hr, hf]
  case pureComp =>
    intro α β f r
    funext depth
    rcases hr : r depth with ⟨after, events, e | a⟩ <;>
      simp [bind, Functor.map, Except.map, hr, pure_apply]

/-- A sequence of computations on values is the sequence of their renderings. -/
theorem ofValueTrace_bind (t : Trace Fault α) (f : α → Trace Fault β) :
    ofValueTrace (t >>= f) = ofValueTrace t >>= fun a => ofValueTrace (f a) := by
  funext depth
  rcases t with ⟨events, _ | a⟩
  · rfl
  · rfl

/-! ## Values that a rendering can end with -/

def Gives (r : Render α) (a : α) : Prop := ∃ depth, (r depth).2.result = .ok a

theorem Gives.of_bind {r : Render α} {f : α → Render β} {b : β} (h : Gives (r >>= f) b) :
    ∃ a, Gives r a ∧ Gives (f a) b := by
  obtain ⟨depth, h⟩ := h
  cases hr : (r depth).2.result with
  | error e =>
    rw [bind_apply_of_error hr] at h
    cases h
  | ok a =>
    rw [bind_apply_of_ok hr] at h
    exact ⟨a, ⟨depth, hr⟩, _, h⟩

theorem Gives.of_pure {a b : α} (h : Gives (pure a) b) : a = b := by
  obtain ⟨depth, h⟩ := h
  exact Except.ok.inj h

theorem Gives.of_ofValueTrace {t : Trace Fault α} {a : α} (h : Gives (ofValueTrace t) a) :
    t.result = .ok a := by
  obtain ⟨depth, h⟩ := h
  rcases t with ⟨events, _ | b⟩
  · cases h
  · exact congrArg Except.ok (Except.ok.inj h)

/-! ## Results -/

/-- The result of a rendering in two parts, the second of which goes on where the first ends. -/
theorem result_bind (r : Render α) (f : α → Render β) (depth : Nat) :
    ((r >>= f) depth).2.result =
      ((r depth).2.result >>= fun a => (f a (r depth).1).2.result) := by
  cases h : (r depth).2.result with
  | error e => rw [bind_apply_of_error h, Outcome.error_bind]
  | ok a => rw [bind_apply_of_ok h, Outcome.ok_bind]

theorem result_map (φ : α → β) (r : Render α) (depth : Nat) :
    ((φ <$> r) depth).2.result = (r depth).2.result.map φ := rfl

theorem result_tagged (t : Token) (r : Render α) (depth : Nat) :
    (tagged t r depth).2.result = (r depth).2.result.mapError (.tag t) := rfl

theorem result_ofValueTrace (t : Trace Fault α) (depth : Nat) :
    (ofValueTrace t depth).2.result = t.result.mapError .fault := rfl

/-- A rendering in two parts has a result when both parts do, the second one where the first one
ends. -/
theorem result_bind_eq_ok {r : Render α} {f : α → Render β} {depth : Nat} {b : β} :
    ((r >>= f) depth).2.result = .ok b ↔
      ∃ a, (r depth).2.result = .ok a ∧ (f a (r depth).1).2.result = .ok b := by
  rw [result_bind, Outcome.bind_eq_ok]

theorem result_map_eq_ok {r : Render α} {φ : α → β} {depth : Nat} {b : β} :
    ((φ <$> r) depth).2.result = .ok b ↔ ∃ a, (r depth).2.result = .ok a ∧ φ a = b := by
  rw [result_map]
  cases (r depth).2.result <;> simp [Except.map]

theorem result_tagged_eq_ok {r : Render α} {t : Token} {depth : Nat} {a : α} :
    (tagged t r depth).2.result = .ok a ↔ (r depth).2.result = .ok a :=
  Outcome.mapError_eq_ok

/-- A rendering in two parts fails when the first part does, or else when the second one does. -/
theorem result_bind_eq_error {r : Render α} {f : α → Render β} {depth : Nat} {e : RenderFailure} :
    ((r >>= f) depth).2.result = .error e ↔ (r depth).2.result = .error e ∨
      ∃ a, (r depth).2.result = .ok a ∧ (f a (r depth).1).2.result = .error e := by
  rw [result_bind, Outcome.bind_eq_error]

/-! ## Blocks -/

theorem level_bind {r : Render α} {f : α → Render β} (hr : ∀ depth, (r depth).1 = depth)
    (hf : ∀ a depth, (f a depth).1 = depth) (depth : Nat) : ((r >>= f) depth).1 = depth := by
  cases h : (r depth).2.result with
  | error e => rw [bind_apply_of_error h, hr]
  | ok a => rw [bind_apply_of_ok h, hf, hr]

theorem result_nested_of_lt {limit : Int} {depth : Nat} (h : (depth : Int) < limit)
    (block : Option String) (body : Render α) :
    (nested limit block body depth).2 = (body (depth + 1)).2 := by
  have hnot : ¬ limit ≤ Int.ofNat depth := by
    rw [Int.ofNat_eq_natCast]
    omega
  rw [nested, Nesting.enter?, if_neg hnot]

theorem result_nested_of_le {limit : Int} {depth : Nat} (h : limit ≤ (depth : Int))
    (block : Option String) (body : Render α) :
    (nested limit block body depth).2 = .fail (.beyond limit block) := by
  rw [nested, Nesting.enter?, if_pos (show limit ≤ Int.ofNat depth from h)]

/-! ## Images of renderings -/

/-- A rendering that does what another does and ends with the image of its value. -/
def Image (φ : α → β) (q : Render α) (r : Render β) : Prop := r = φ <$> q

variable {φ : α → β}

theorem image_pure {a : α} {b : β} (h : b = φ a) : Image φ (pure a) (pure b) := by
  subst h
  rfl

theorem image_bind {x : Render γ} {f : γ → Render α} {g : γ → Render β}
    (h : ∀ c, Gives x c → Image φ (f c) (g c)) : Image φ (x >>= f) (x >>= g) := by
  funext depth
  rw [map_apply]
  cases hx : (x depth).2.result with
  | error e =>
    rw [bind_apply_of_error hx, bind_apply_of_error hx]
    rfl
  | ok c =>
    rw [bind_apply_of_ok hx, bind_apply_of_ok hx, h c ⟨depth, hx⟩]
    rfl

theorem image_tagged {q : Render α} {r : Render β} (t : Token) (h : Image φ q r) :
    Image φ (tagged t q) (tagged t r) := by
  funext depth
  rw [h, map_apply, tagged, tagged, map_apply]
  rcases q depth with ⟨after, events, _ | a⟩
  · rfl
  · rfl

theorem image_nested {q : Render α} {r : Render β} (limit : Int) (block : Option String)
    (h : Image φ q r) : Image φ (nested limit block q) (nested limit block r) := by
  funext depth
  rw [h, map_apply, nested, nested]
  cases (Nesting.mk limit depth).enter? with
  | none => rfl
  | some inner => rfl

end Render

/-! ## Lists of one node -/

theorem Node.renderAll_singleton {g : Setting} {s : Scope} (n : Node) :
    renderAll g s [n] = render g s n := by
  have hempty : ∀ first, (first ++ ·) <$> renderAll g s [] = (pure first : Render String) := by
    intro first
    rw [renderAll, map_pure, String.append_empty]
  rw [renderAll]
  simp only [hempty, bind_pure]

/-! ## Templates -/

namespace Template

/-- A template has a result when the context is a map and its tree has that result. -/
theorem render_eq_ok_iff (t : Template) (context : Value) (out : String) :
    (t.render context).result = .ok out ↔ ∃ s, Scope.ofValue context = .ok s ∧
      (Node.renderAll t.setting s t.nodes 0).2.result = .ok out := by
  rw [render]
  cases Scope.ofValue context with
  | error e => simp [Trace.fail]
  | ok s =>
    constructor
    · intro h
      exact ⟨s, rfl, Outcome.mapError_eq_ok.mp h⟩
    · rintro ⟨_, ⟨⟩, h⟩
      exact Outcome.mapError_eq_ok.mpr h

/-- A template fails when the context is a map and its tree fails, and it reports that failure. -/
theorem render_eq_failed_iff (t : Template) (context : Value) (report : Report RenderFailure) :
    (t.render context).result = .error (.failed report) ↔
      ∃ s f, Scope.ofValue context = .ok s ∧
        (Node.renderAll t.setting s t.nodes 0).2.result = .error f ∧ t.reportRender f = report := by
  rw [render]
  cases Scope.ofValue context with
  | error e => simp [Trace.fail]
  | ok s =>
    show (Node.renderAll t.setting s t.nodes 0).2.result.mapError _ = _ ↔ _
    rw [Outcome.mapError_eq_error]
    constructor
    · rintro ⟨f, hf, hreport⟩
      exact ⟨s, f, rfl, hf, RenderError.failed.inj hreport⟩
    · rintro ⟨_, f, ⟨⟩, hf, rfl⟩
      exact ⟨f, hf, rfl⟩

theorem failure_reportRender (t : Template) (f : RenderFailure) :
    (t.reportRender f).failure = f := by
  rw [reportRender]
  cases f.token <;> rfl

end Template
end Quill
