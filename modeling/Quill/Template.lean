import Quill.Template.Parse
import Quill.Template.Render
import Quill.Template.Excerpt

/-!
Templates: compiled once, rendered any number of times.
-/

namespace Quill

structure Template where
  name : Option String
  source : String
  nodes : List Node
  setting : Setting
  /-- Whether tokens carry their places and errors an excerpt. -/
  located : Bool

structure Report (ε : Type) where
  failure : ε
  excerpt : Option Excerpt

inductive RenderError where
  | notAMap (e : NotAMap)
  | failed (report : Report RenderFailure)

namespace Template

def givenName? (name : Option String) : Option String := name.filter fun n => !n.isEmpty

/-- The name of a template in its quoted form and in excerpts. -/
def originName (name : Option String) : String := (givenName? name).getD "<unknown source>"

def eventName (name : Option String) : String := (givenName? name).getD "unknown"

def excerptAt (name : Option String) (source message : String) (token : Token) : Option Excerpt :=
  token.span.map fun span => Excerpt.make message (originName name) source span

def reportCompile (located : Bool) (name : Option String) (source : String) (f : Failure) :
    Report Failure :=
  match f with
  | .malformed problem token =>
    ⟨f, if located then excerptAt name source problem.message token else none⟩
  | .longNumeral _ => ⟨f, none⟩

def compile (setting : Setting) (located : Bool) (name : Option String) (source : String) :
    Except (Report Failure) Template :=
  match parseTokens (Token.tokens located source) with
  | .ok nodes => .ok ⟨name, source, nodes, setting, located⟩
  | .error f => .error (reportCompile located name source f)

def quoted (t : Template) : String := "<Template: " ++ originName t.name ++ ">"

def reportRender (t : Template) (f : RenderFailure) : Report RenderFailure :=
  match f.token with
  | some token => ⟨f, if t.located then excerptAt t.name t.source f.message token else none⟩
  | none => ⟨f, none⟩

/-- The text of a template in a scope, with the count of blocks brought back. -/
def renderIn (t : Template) (s : Scope) : Render String := Node.renderAll t.setting s t.nodes

def render (t : Template) (context : Value) : Trace RenderError String :=
  match Scope.ofValue context with
  | .error e => .fail (.notAMap e)
  | .ok s =>
    let (_, r) := t.renderIn s 0
    ⟨r.events, r.result.mapError fun f => .failed (t.reportRender f)⟩

end Template
end Quill
