import Quill.Proofs.Scope.Overlays
import Quill.Proofs.Template.FreeNames

/-!
Rendering over copied tables.

The renderer pushes a binding on a scope for each item of a loop and looks names up through all
bindings there are.  The renderer of this module has no bindings: it reads a plain table, and each
item of a loop gets a copy of the whole table in which the name of the loop has been overwritten.
They cannot be told apart, in what they give, in the events they leave or in the count of blocks
they come back to.  What is carried from the outside into the bodies of loops is that the scope of
the one answers like the table of the other (`Scope.Models`).
-/

namespace Quill
namespace Node

mutual

def renderCopied (g : Setting) (entries : Assoc Value) : Node → Render String
  | .text t => pure t.contents
  | .output t p => Render.tagged t do
    let v ← p.run g.filters (.ofTable entries)
    v.write g.autoescape
  | .loop t name items body => Render.tagged t do
    let v ← Render.ofValueTrace (items.eval (.ofTable entries))
    match v.elements? with
    | none => return ""
    | some elements =>
      Render.nested g.maxDepth ((Node.loop t name items body).quoted? g.room)
        (Render.forEach (fun item => renderAllCopied g (entries.set name item) body) elements)
  | .choice t arms =>
    Render.tagged t (renderArmsCopied g entries ((Node.choice t arms).quoted? g.room) arms)

def renderAllCopied (g : Setting) (entries : Assoc Value) : List Node → Render String
  | [] => pure ""
  | n :: rest => do
    let first ← renderCopied g entries n
    (first ++ ·) <$> renderAllCopied g entries rest

def renderArmsCopied (g : Setting) (entries : Assoc Value) (block : Option String) :
    List Arm → Render String
  | [] => pure ""
  | .mk none body :: _ => Render.nested g.maxDepth block (renderAllCopied g entries body)
  | .mk (some condition) body :: rest => do
    let taken ← Render.ofValueTrace do (← condition.eval (.ofTable entries)).truth
    if taken then Render.nested g.maxDepth block (renderAllCopied g entries body)
    else renderArmsCopied g entries block rest

end

end Node

namespace Scope

variable {s : Scope} {entries : Assoc Value}

theorem Models.agree (h : s.Models entries) (names : List String) :
    Agree names s.get? (ofTable entries).get? := fun name _ => h name

theorem Models.eval_eq (h : s.Models entries) (e : Expr) : e.eval s = e.eval (.ofTable entries) :=
  Expr.eval_congr (h.agree e.names)

theorem Models.run_eq (h : s.Models entries) (filters : Registry) (p : Pipeline) :
    p.run filters s = p.run filters (.ofTable entries) :=
  Pipeline.run_congr (h.agree p.names) fun _ _ => rfl

end Scope

namespace Node

mutual

/-- In a scope that answers like a table, a node gives what it gives over copies of the table. -/
theorem render_eq_copied {s : Scope} {entries : Assoc Value} (g : Setting)
    (h : s.Models entries) (n : Node) : render g s n = renderCopied g entries n := by
  match n with
  | .text t => rw [render, renderCopied]
  | .output t p => rw [render, renderCopied, h.run_eq]
  | .loop t name items body =>
    have hbody : ∀ item, renderAll g (s.push name item) body =
        renderAllCopied g (entries.set name item) body :=
      fun item => renderAll_eq_copied g (h.push name item) body
    rw [render, renderCopied, h.eval_eq]
    refine congrArg (fun f => Render.tagged t (Render.ofValueTrace _ >>= f)) (funext fun v => ?_)
    cases v.elements? with
    | none => rfl
    | some elements => simp only [hbody]
  | .choice t arms => rw [render, renderCopied, renderArms_eq_copied g h _ arms]

theorem renderAll_eq_copied {s : Scope} {entries : Assoc Value} (g : Setting)
    (h : s.Models entries) (nodes : List Node) :
    renderAll g s nodes = renderAllCopied g entries nodes := by
  match nodes with
  | [] => rw [renderAll, renderAllCopied]
  | n :: rest =>
    rw [renderAll, renderAllCopied, render_eq_copied g h n, renderAll_eq_copied g h rest]

theorem renderArms_eq_copied {s : Scope} {entries : Assoc Value} (g : Setting)
    (h : s.Models entries) (block : Option String) (arms : List Arm) :
    renderArms g s block arms = renderArmsCopied g entries block arms := by
  match arms with
  | [] => rw [renderArms, renderArmsCopied]
  | .mk none body :: rest => rw [renderArms, renderArmsCopied, renderAll_eq_copied g h body]
  | .mk (some condition) body :: rest =>
    rw [renderArms, renderArmsCopied, h.eval_eq, renderAll_eq_copied g h body,
      renderArms_eq_copied g h block rest]

end

/-- Over a base with any bindings pushed on it, nodes give what they give over the one table that
all of it flattens to, and what they give where every binding, those of loops included, overwrites
its name in a copy of the whole table.  The equations are between renderings as a whole: from every
count of blocks both come back to the same one, with the same events and the same text or failure. -/
theorem renderAll_pushAll_eq_copied (g : Setting) (base : Assoc Value)
    (chain : List (String × Value)) (nodes : List Node) :
    let s := (Scope.ofTable base).pushAll chain
    renderAll g s nodes = renderAll g (.ofTable s.flatten) nodes ∧
      renderAll g s nodes = renderAllCopied g (base.setAll chain) nodes := by
  intro s
  have hflat : renderAll g s nodes = renderAllCopied g s.flatten nodes :=
    renderAll_eq_copied g s.models_flatten nodes
  constructor
  · calc renderAll g s nodes
        = renderAllCopied g s.flatten nodes := hflat
      _ = renderAll g (.ofTable s.flatten) nodes :=
          (renderAll_eq_copied g (Scope.models_ofTable s.flatten) nodes).symm
  · exact renderAll_eq_copied g ((Scope.models_ofTable base).pushAll chain) nodes

end Node
end Quill
