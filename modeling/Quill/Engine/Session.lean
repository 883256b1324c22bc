import Quill.Engine
import Quill.Engine.Shelf

/-!
Sessions: an engine in use, with the templates that have been compiled and kept.

The engine and the templates refer to their registries.  A change of the engine's registry is
written where it stands; whoever asks for the registry, a template above all, is given a copy at a
new place.
-/

namespace Quill

inductive LogLine where
  | engine (c : Engine.Change)
  | template (name : String) (e : Event)
  deriving DecidableEq, Repr

def LogLine.message : LogLine → String
  | .engine c => c.message
  | .template name e => e.message name

/-- A template that is kept.  Its options are those of the engine. -/
structure Kept where
  name : Option String
  source : String
  nodes : List Node
  filters : Shelf.Place

structure Session where
  shelf : Shelf
  autoescape : Value
  maxDepth : Int
  debug : Bool
  /-- The place of the engine's registry. -/
  filters : Shelf.Place
  templates : Assoc Kept

namespace Session

inductive Command where
  | addFilter (name : String) (candidate : Candidate)
  | removeFilter (name : String)
  /-- Asks for the registry and clears what is given. -/
  | clearCopy
  | describe
  | compile (id : String) (name : Option String) (source : String)
  | render (id : String) (context : Value)
  | once (source : String) (context : Value)

inductive Answer where
  | filterNames (names : List String)
  | text (s : String)

inductive Failure where
  | setup (e : SetupError)
  | compile (r : Report Template.Failure)
  | render (e : RenderError)
  | unknownTemplate (id : String)

structure Outcome where
  session : Session
  log : List LogLine
  result : Except Failure Answer

def make (c : Catalogue) (o : Options) : Except SetupError Session := do
  let p ← Engine.parts c o
  let libraries : Shelf := ⟨Filter.standard :: p.libraries⟩
  let (shelf, filters) := libraries.gather (List.range libraries.size) p.given
  return ⟨shelf, o.autoescape, p.maxDepth, o.debug.isOn, filters, []⟩

def engine (s : Session) : Engine :=
  ⟨s.autoescape, s.maxDepth, s.debug, s.shelf.read s.filters⟩

def template (s : Session) (k : Kept) : Template :=
  let e : Engine := { s.engine with filters := s.shelf.read k.filters }
  ⟨k.name, k.source, k.nodes, e.setting, s.debug⟩

def write (s : Session) (f : Registry → Registry) : Session :=
  { s with shelf := s.shelf.write s.filters f }

/-- Compiles a template.  Its copy of the registry is made first, and stays unused if the source
spells no template. -/
def compile (s : Session) (name : Option String) (source : String) :
    Session × Except (Report Template.Failure) Kept :=
  let (shelf, filters) := s.shelf.copy s.filters
  ({ s with shelf },
    (s.engine.compile name source).map fun t => ⟨t.name, t.source, t.nodes, filters⟩)

def rendered (s : Session) (t : Template) (context : Value) : Outcome :=
  let r := t.render context
  ⟨s, r.events.map (.template (Template.eventName t.name)),
    match r.result with
    | .ok text => .ok (.text text)
    | .error e => .error (.render e)⟩

def step (s : Session) : Command → Outcome
  | .addFilter name (.filter f) =>
    let s := s.write (·.set name f)
    ⟨s, [.engine (.registered name)], .ok (.filterNames s.engine.filterNames)⟩
  | .addFilter name (.value v) =>
    ⟨s, [], .error (.setup (Engine.withQuoted v (.cannotRegister name)))⟩
  | .removeFilter name =>
    let log := if s.engine.filters.contains name then [.engine (.removed name)] else []
    let s := s.write (·.erase name)
    ⟨s, log, .ok (.filterNames s.engine.filterNames)⟩
  | .clearCopy =>
    let (shelf, given) := s.shelf.copy s.filters
    let s := { s with shelf := shelf.write given fun _ => [] }
    ⟨s, [], .ok (.filterNames s.engine.filterNames)⟩
  | .describe =>
    ⟨s, [],
      match s.engine.quoted with
      | .ok text => .ok (.text text)
      | .error f => .error (.setup (.fault f))⟩
  | .compile id name source =>
    match s.compile name source with
    | (s, .ok k) =>
      ⟨{ s with templates := s.templates.set id k }, [], .ok (.text (s.template k).quoted)⟩
    | (s, .error r) => ⟨s, [], .error (.compile r)⟩
  | .render id context =>
    match s.templates.get? id with
    | some k => s.rendered (s.template k) context
    | none => ⟨s, [], .error (.unknownTemplate id)⟩
  | .once source context =>
    match s.compile none source with
    | (s, .ok k) => s.rendered (s.template k) context
    | (s, .error r) => ⟨s, [], .error (.compile r)⟩

end Session
end Quill
