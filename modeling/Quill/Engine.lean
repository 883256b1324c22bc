import Quill.Catalogue
import Quill.Template
import Quill.Filter.Standard

/-!
Engines: a registry of filters and the options that templates are compiled and rendered
with.  A template keeps the registry as it was when the template was compiled.
-/

namespace Quill

/-! ## Options -/

/-- The options of an engine as they are given, before any check. -/
structure Options where
  autoescape : Value
  filters : List (String × Candidate)
  builtins : Value
  maxDepth : Value
  debug : Value
  /-- Options that do not exist, by name. -/
  unknown : List String

def Options.default : Options :=
  { autoescape := .bool true, filters := [], builtins := .null, maxDepth := .ofInt 32,
    debug := .bool false, unknown := [] }

def Options.set (o : Options) (name : String) (v : Value) : Options :=
  match name with
  | "autoescape" => { o with autoescape := v }
  | "builtins" => { o with builtins := v }
  | "max_depth" => { o with maxDepth := v }
  | "debug" => { o with debug := v }
  | _ => { o with unknown := o.unknown ++ [name] }

/-- Whether an option is switched on: null, false, zero and what is empty switch it off. -/
def Value.isOn : Value → Bool
  | .null => false
  | .bool b => b
  | .number n => !n.isZero
  | .text t => t.text != ""
  | .list items => !items.isEmpty
  | .tuple items => !items.isEmpty
  | .map entries => !entries.isEmpty
  | .date _ => true
  | .dateTime _ => true

def Value.shown (v : Value) : Except Fault String :=
  match v with
  | .text t => .ok t.text
  | .number (.decimal d) => .ok d.toText
  | .date d => .ok d.toText
  | .dateTime t => .ok t.toText
  | v => v.quoted

/-- What a value gives one by one: items, the keys of a map, or the characters of a text. -/
def Value.parts? : Value → Option (List Value)
  | .list items => some items
  | .tuple items => some items
  | .map entries => some (entries.map fun (key, _) => .ofString key)
  | .text t => some (t.text.toList.map fun c => .ofString (String.singleton c))
  | _ => none

/-! ## Errors -/

inductive SetupError where
  | unknownOption (name : String)
  /-- An option by the name of something that a call has been given already. -/
  | givenTwice (call name : String)
  | badDepth (shown : String)
  | notIterable (typeName : String)
  | notAPath (typeName : String)
  | unimportable (e : ImportError)
  | library (e : LibraryError)
  | filterNotCallable (name shown : String)
  | cannotRegister (name shown : String)
  | fault (f : Fault)
  deriving DecidableEq, Repr

def Engine.call : String := "Engine.__init__"

def SetupError.message : SetupError → String
  | .unknownOption name =>
    Engine.call ++ "() got an unexpected keyword argument '" ++ name ++ "'"
  | .givenTwice call name => call ++ "() got multiple values for argument '" ++ name ++ "'"
  | .badDepth shown => "max_depth must be a positive integer, got " ++ shown ++ "."
  | .notIterable typeName => "'" ++ typeName ++ "' object is not iterable"
  | .notAPath typeName => "'" ++ typeName ++ "' object has no attribute 'startswith'"
  | .unimportable e => e.message
  | .library e => e.message
  | .filterNotCallable name shown => "Filter '" ++ name ++ "' is not callable: " ++ shown ++ "."
  | .cannotRegister name shown => "Filter '" ++ name ++ "' must be callable, got " ++ shown ++ "."
  | .fault f => f.message

/-! ## Engines -/

structure Engine where
  autoescape : Value
  maxDepth : Int
  debug : Bool
  filters : Registry

namespace Engine

def withQuoted (v : Value) (make : String → SetupError) : SetupError :=
  match v.quoted with
  | .ok s => make s
  | .error f => .fault f

def checkDepth (v : Value) : Except SetupError Int :=
  match v with
  | .number (.int n) => if 1 ≤ n then .ok n else .error (withQuoted v .badDepth)
  | _ => .error (withQuoted v .badDepth)

def builtinPaths : Value → Except SetupError (List Value)
  | .null => .ok []
  | v =>
    match v.parts? with
    | some parts => .ok parts
    | none => .error (.notIterable v.qualifiedTypeName)

def loadBuiltin (c : Catalogue) (path : Value) : Except SetupError Registry :=
  match path with
  | .text t =>
    match c.library t.text with
    | .ok registry => .ok registry
    | .error (.inl e) => .error (.unimportable e)
    | .error (.inr e) => .error (.library e)
  | v => .error (.notAPath v.qualifiedTypeName)

def givenFilter (entry : String × Candidate) : Except SetupError (String × Filter) :=
  match entry.2 with
  | .filter f => .ok (entry.1, f)
  | .value v => .error (withQuoted v (.filterNotCallable entry.1))

/-- The error about an option that does not exist.  The name `self` is that of the engine
being built, which an option of this name would give once more. -/
def refuse (name : String) : SetupError :=
  if name = "self" then .givenTwice call name else .unknownOption name

structure Parts where
  maxDepth : Int
  libraries : List Registry
  given : List (String × Filter)

def parts (c : Catalogue) (o : Options) : Except SetupError Parts := do
  match o.unknown with
  | name :: _ => throw (refuse name)
  | [] => pure ()
  let maxDepth ← checkDepth o.maxDepth
  let paths ← builtinPaths o.builtins
  let libraries ← paths.mapM (loadBuiltin c)
  let given ← (Assoc.ofRows o.filters).mapM givenFilter
  return ⟨maxDepth, libraries, given⟩

/-- An engine with the standard filters, then those of the further libraries in order, then
those given one by one; a later filter replaces an earlier one of its name. -/
def make (c : Catalogue) (o : Options) : Except SetupError Engine := do
  let p ← parts c o
  let filters :=
    Assoc.setAll (p.libraries.foldl Assoc.setAll (Assoc.setAll [] Filter.standard)) p.given
  return ⟨o.autoescape, p.maxDepth, o.debug.isOn, filters⟩

def quoted (e : Engine) : Except Fault String := do
  let autoescape ← e.autoescape.shown
  return "<Engine: autoescape=" ++ autoescape ++ ", max_depth=" ++ Text.intText e.maxDepth ++
    ", filters=" ++ Text.natText e.filters.length ++ ">"

/-- For how many quotations inside one another the stack has room: it holds a thousand calls, a
quotation takes two of them, and some are under way before the first.  The callers and the blocks
around the quoted one make the room a little smaller or larger. -/
def room : Nat := 489

def setting (e : Engine) : Setting := ⟨e.filters, e.autoescape.isOn, e.maxDepth, room⟩

def compile (e : Engine) (name : Option String) (source : String) :
    Except (Report Template.Failure) Template :=
  Template.compile e.setting e.debug name source

def filterNames (e : Engine) : List String := e.filters.keys.mergeSort fun a b => a ≤ b

/-! ## Changes of the registry -/

inductive Change where
  | registered (name : String)
  | removed (name : String)
  deriving DecidableEq, Repr

def Change.message : Change → String
  | .registered name => "Registering filter '" ++ name ++ "'."
  | .removed name => "Removed filter '" ++ name ++ "'."

end Engine
end Quill
