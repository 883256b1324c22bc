import Quill.Engine

/-!
Shortcuts: a template compiled, or compiled and rendered, in one call with an engine of its
own.  The options of that engine stand beside the arguments of the call, so an option that
goes by the name of an argument is refused before anything else is looked at.
-/

namespace Quill

inductive Shortcut where
  | compile
  | render
  deriving DecidableEq, Repr

namespace Shortcut

def name : Shortcut → String
  | .compile => "compile"
  | .render => "render"

/-- The names of the arguments, which no option can have. -/
def arguments : Shortcut → List String
  | .compile => ["template_string"]
  | .render => ["template_string", "context"]

def clash? (call : Shortcut) (o : Options) : Option String :=
  o.unknown.find? fun name => call.arguments.contains name

inductive Failure where
  | setup (e : SetupError)
  | compile (r : Report Template.Failure)
  | render (e : RenderError)

def template (call : Shortcut) (c : Catalogue) (o : Options) (source : String) :
    Except Failure Template :=
  match call.clash? o with
  | some name => .error (.setup (.givenTwice call.name name))
  | none => do
    let e ← (Engine.make c o).mapError .setup
    (e.compile none source).mapError .compile

end Shortcut

def compileWith (c : Catalogue) (o : Options) (source : String) :
    Except Shortcut.Failure Template :=
  Shortcut.compile.template c o source

def renderWith (c : Catalogue) (o : Options) (source : String) (context : Value) :
    Except Shortcut.Failure String := do
  let t ← Shortcut.render.template c o source
  (t.render context).result.mapError .render

end Quill
