import Quill.Template.Nesting
import Quill.Template.Node

/-!
Rendering: the text that a tree gives in a scope.

A rendering counts how many blocks it is inside of.  `Render.nested` enters one more block,
refuses to go beyond the limit, and comes back to the count it started from whether its
body succeeds or fails.  That the stack holds out for as many blocks as the limit allows is taken
for granted by `renderAll`; the quotation of a block at the limit may find no room in it.
-/

namespace Quill

/-! ## Failures -/

/-- Why a rendering stopped: a fault outside of any filter, a fault inside a filter, or too
many blocks inside one another.  The last two carry the token of the innermost node they
came from. -/
inductive RenderFailure where
  | fault (f : Fault)
  | filter (name : String) (cause : Fault) (token : Option Token)
  | tooDeep (limit : Int) (block : String) (token : Option Token)
  deriving DecidableEq, Repr

namespace RenderFailure

def message : RenderFailure → String
  | .fault f => f.message
  | .filter name cause _ => "Filter '" ++ name ++ "' failed: " ++ cause.message
  | .tooDeep limit block _ =>
    "Maximum nesting depth of " ++ Text.intText limit ++ " exceeded while rendering " ++
      block ++ "."

def token : RenderFailure → Option Token
  | .fault _ => none
  | .filter _ _ t => t
  | .tooDeep _ _ t => t

/-- The failure with a token, which one that it already carries overrides. -/
def tag (t : Token) : RenderFailure → RenderFailure
  | .fault f => .fault f
  | .filter name cause old => .filter name cause (some (old.getD t))
  | .tooDeep limit block old => .tooDeep limit block (some (old.getD t))

/-- The failure at a block that would go beyond the limit.  Its message quotes the block, and
without room for that the message fails itself. -/
def beyond (limit : Int) : Option String → RenderFailure
  | some block => .tooDeep limit block none
  | none => .fault .exhausted

end RenderFailure

/-! ## Renderings -/

/-- A computation that knows how many blocks it is inside of and gives that count back. -/
def Render (α : Type) : Type := Nat → Nat × Trace RenderFailure α

namespace Render

variable {α β : Type}

def ofTrace (t : Trace RenderFailure α) : Render α := fun depth => (depth, t)

def ofValueTrace (t : Trace Fault α) : Render α :=
  ofTrace ⟨t.events, t.result.mapError .fault⟩

instance : Monad Render where
  pure a := ofTrace (pure a)
  bind r f := fun depth =>
    let (after, t) := r depth
    match t.result with
    | .error e => (after, ⟨t.events, .error e⟩)
    | .ok a =>
      let (last, u) := f a after
      (last, ⟨t.events ++ u.events, u.result⟩)
  map f r := fun depth =>
    let (after, t) := r depth
    (after, f <$> t)

theorem pure_apply (a : α) (depth : Nat) : (pure a : Render α) depth = (depth, pure a) := rfl

theorem map_apply (f : α → β) (r : Render α) (depth : Nat) :
    (f <$> r) depth = ((r depth).1, f <$> (r depth).2) := rfl

/-- After a result the next computation goes on with the count and adds its events. -/
theorem bind_apply_of_ok {r : Render α} {depth : Nat} {a : α} (h : (r depth).2.result = .ok a)
    (f : α → Render β) :
    (r >>= f) depth =
      ((f a (r depth).1).1,
        ⟨(r depth).2.events ++ (f a (r depth).1).2.events, (f a (r depth).1).2.result⟩) := by
  simp [bind, h]

/-- After a failure nothing follows. -/
theorem bind_apply_of_error {r : Render α} {depth : Nat} {e : RenderFailure}
    (h : (r depth).2.result = .error e) (f : α → Render β) :
    (r >>= f) depth = ((r depth).1, ⟨(r depth).2.events, .error e⟩) := by
  simp [bind, h]

def nested (limit : Int) (block : Option String) (body : Render α) : Render α := fun depth =>
  match (Nesting.mk limit depth).enter? with
  | none => (depth, .fail (.beyond limit block))
  | some inner =>
    let (after, t) := body inner.depth
    ((Nesting.mk limit after).leave.depth, t)

/-- Attaches a token to a failure that has none yet. -/
def tagged (token : Token) (r : Render α) : Render α := fun depth =>
  let (after, t) := r depth
  (after, ⟨t.events, t.result.mapError (.tag token)⟩)

def forEach (body : Value → Render String) : List Value → Render String
  | [] => pure ""
  | v :: rest => do
    let first ← body v
    (first ++ ·) <$> forEach body rest

end Render

/-! ## Pipelines -/

/-- What a rendering does not change: the filters it may use, whether output is made safe,
how many blocks may enclose one another, and for how many quotations inside one another there is
room. -/
structure Setting where
  filters : Registry
  autoescape : Bool
  maxDepth : Int
  room : Nat

namespace Pipeline

def evalArguments (s : Scope) : List Argument → Trace Fault (List Value)
  | [] => pure []
  | a :: rest => do
    let v ← a.eval s
    (v :: ·) <$> evalArguments s rest

/-- Applies one stage to a value.  A stage whose filter is not registered leaves the value
as it is and does not look at its arguments. -/
def applyStage (filters : Registry) (s : Scope) (v : Value) (stage : Stage) : Render Value :=
  match filters.get? stage.name with
  | none => do
    Render.ofTrace (.note (.filterSkipped stage.name))
    return v
  | some f => do
    let arguments ← Render.ofValueTrace (evalArguments s stage.arguments)
    match f.apply v arguments with
    | .ok result => return result
    | .error cause =>
      Render.ofTrace ⟨[.filterFailed stage.name], .error (.filter stage.name cause none)⟩

def run (filters : Registry) (s : Scope) (p : Pipeline) : Render Value := do
  let v ← Render.ofValueTrace (p.subject.eval s)
  p.stages.foldlM (applyStage filters s) v

end Pipeline

/-! ## Nodes -/

def Value.write (autoescape : Bool) (v : Value) : Render String := do
  let t ← Render.ofValueTrace (Trace.ofExcept v.output)
  return if autoescape then t.escaped else t.text

namespace Node

mutual

def render (g : Setting) (s : Scope) : Node → Render String
  | .text t => pure t.contents
  | .output t p => Render.tagged t do
    let v ← p.run g.filters s
    v.write g.autoescape
  | .loop t name items body => Render.tagged t do
    let v ← Render.ofValueTrace (items.eval s)
    match v.elements? with
    | none => return ""
    | some elements =>
      Render.nested g.maxDepth ((Node.loop t name items body).quoted? g.room)
        (Render.forEach (fun item => renderAll g (s.push name item) body) elements)
  | .choice t arms => Render.tagged t (renderArms g s ((Node.choice t arms).quoted? g.room) arms)

def renderAll (g : Setting) (s : Scope) : List Node → Render String
  | [] => pure ""
  | n :: rest => do
    let first ← render g s n
    (first ++ ·) <$> renderAll g s rest

/-- The text of the first branch that is taken; later conditions are not looked at. -/
def renderArms (g : Setting) (s : Scope) (block : Option String) : List Arm → Render String
  | [] => pure ""
  | .mk none body :: _ => Render.nested g.maxDepth block (renderAll g s body)
  | .mk (some condition) body :: rest => do
    let taken ← Render.ofValueTrace do (← condition.eval s).truth
    if taken then Render.nested g.maxDepth block (renderAll g s body)
    else renderArms g s block rest

end

end Node
end Quill
