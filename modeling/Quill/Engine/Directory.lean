import Quill.Engine

/-!
Directories: engines known by an alias.  The engine of an alias is built when it is first
asked for and kept from then on; a definition whose engine cannot be built is tried again
the next time.
-/

namespace Quill

inductive FilterSource where
  | given (c : Candidate)
  | path (path : String)

def FilterSource.ofValue : Value → FilterSource
  | .text t => .path t.text
  | v => .given (.value v)

/-- The definition of an engine.  The filters are kept apart from the other options because
they may have to be looked up. -/
structure Definition where
  name : String
  options : Options
  filters : List (String × FilterSource)

/-- An entry of a list of definitions; anything but a definition is kept as it was given. -/
inductive Entry where
  | definition (d : Definition)
  | other (v : Value)

/-- The definition of an engine without options. -/
def Definition.plain : Definition := ⟨"default", Options.default, []⟩

def Definition.submap (key : String) (entries : Assoc Value) : Assoc Value :=
  match entries.get? key with
  | some (.map inner) => inner
  | _ => []

def Definition.ofMap (entries : Assoc Value) : Definition :=
  let options := Definition.submap "OPTIONS" entries
  { name :=
      match entries.get? "NAME" with
      | some (.text t) => t.text
      | _ => Definition.plain.name,
    options :=
      (options.erase "filters").foldl (fun o (name, v) => o.set name v) Options.default,
    filters :=
      (Definition.submap "filters" options).map fun (name, v) => (name, .ofValue v) }

def Entry.ofValue : Value → Entry
  | .map entries => .definition (.ofMap entries)
  | v => .other v

inductive DirectoryError where
  | notADefinition (shown : String)
  | duplicates (aliases : List String)
  | unknownAlias (name : String)
  | badOptions (name : String) (e : SetupError)
  | setup (e : SetupError)
  | unimportable (e : ImportError)
  | noEngine
  | fault (f : Fault)
  deriving DecidableEq, Repr

def DirectoryError.message : DirectoryError → String
  | .notADefinition shown =>
    "Invalid template engine definition: " ++ shown ++
      ". Each entry of STENCIL_ENGINES must be a dict."
  | .duplicates aliases =>
    "Template engine aliases aren't unique, duplicates: " ++ ", ".intercalate aliases ++
      ". Set a unique NAME for each engine in STENCIL_ENGINES."
  | .unknownAlias name => "Could not find config for '" ++ name ++ "' in STENCIL_ENGINES"
  | .badOptions name e => "Invalid OPTIONS for template engine '" ++ name ++ "': " ++ e.message
  | .setup e => e.message
  | .unimportable e => e.message
  | .noEngine => "No template engine is configured."
  | .fault f => f.message

/-- An engine that has been built, with a number that no other engine of its directory
has. -/
structure Built where
  number : Nat
  engine : Engine

structure Directory where
  catalogue : Catalogue
  entries : List Entry
  built : Assoc Built
  /-- How many engines have been built. -/
  count : Nat
  /-- The engine that was found to be the default one. -/
  chosen : Option Built

namespace Directory

/-- A directory of definitions; without any, one engine without options is defined. -/
def ofEntries (c : Catalogue) (entries : Option (List Entry)) : Directory :=
  ⟨c, entries.getD [.definition .plain], [], 0, none⟩

/-- A directory of definitions from the settings, where no definitions count as none
given. -/
def ofSettings (c : Catalogue) (entries : List Entry) : Directory :=
  ofEntries c (if entries.isEmpty then none else some entries)

/-! ## Definitions -/

def readEntry : Entry → Except DirectoryError Definition
  | .definition d => .ok d
  | .other v =>
    match v.quoted with
    | .ok shown => .error (.notADefinition shown)
    | .error f => .error (.fault f)

/-- The aliases that occur more than once, those that occur most often first. -/
def duplicates (aliases : List String) : List String :=
  let repeated := (Scope.freshNames [] aliases).filter fun a => 1 < aliases.count a
  repeated.mergeSort fun a b => aliases.count b ≤ aliases.count a

def definitions (d : Directory) : Except DirectoryError (List Definition) := do
  let ds ← d.entries.mapM readEntry
  match duplicates (ds.map Definition.name) with
  | [] => return ds
  | repeated => throw (.duplicates repeated)

def aliases (d : Directory) : Except DirectoryError (List String) := do
  return (← d.definitions).map Definition.name

/-! ## Building -/

def resolveFilter (c : Catalogue) (entry : String × FilterSource) :
    Except DirectoryError (String × Candidate) :=
  match entry.2 with
  | .given candidate => .ok (entry.1, candidate)
  | .path path =>
    match c.member path with
    | .ok candidate => .ok (entry.1, candidate)
    | .error e => .error (.unimportable e)

/-- Whether an error lies in the way the options were given rather than in what they
hold. -/
def isMisuse : SetupError → Bool
  | .unknownOption _ => true
  | .givenTwice .. => true
  | .notIterable _ => true
  | .unimportable (.relative _) => true
  | _ => false

def buildEngine (c : Catalogue) (d : Definition) : Except DirectoryError Engine := do
  let filters ← (Assoc.ofRows d.filters).mapM (resolveFilter c)
  match Engine.make c { d.options with filters } with
  | .ok e => return e
  | .error e => throw (if isMisuse e then .badOptions d.name e else .setup e)

/-! ## Looking up -/

abbrev Lookup (α : Type) := Directory × Except DirectoryError α

/-- The engine of an alias, built now unless it has been built before. -/
def get (d : Directory) (name : String) : Lookup Built :=
  match d.built.get? name with
  | some b => (d, .ok b)
  | none =>
    match d.definitions with
    | .error e => (d, .error e)
    | .ok ds =>
      match ds.find? fun x => x.name == name with
      | none => (d, .error (.unknownAlias name))
      | some definition =>
        match buildEngine d.catalogue definition with
        | .error e => (d, .error e)
        | .ok engine =>
          let b : Built := ⟨d.count, engine⟩
          ({ d with built := d.built.set name b, count := d.count + 1 }, .ok b)

def getAll (d : Directory) : List String → Lookup (List Built)
  | [] => (d, .ok [])
  | name :: rest =>
    match d.get name with
    | (d, .error e) => (d, .error e)
    | (d, .ok b) =>
      match getAll d rest with
      | (d, .error e) => (d, .error e)
      | (d, .ok bs) => (d, .ok (b :: bs))

def all (d : Directory) : Lookup (List Built) :=
  match d.aliases with
  | .error e => (d, .error e)
  | .ok aliases => d.getAll aliases

/-- The engine that has the alias `default`, or else the first of all. -/
def findDefault (d : Directory) : Lookup Built :=
  match d.aliases with
  | .error e => (d, .error e)
  | .ok aliases =>
    if "default" ∈ aliases then d.get "default"
    else
      match d.getAll aliases with
      | (d, .error e) => (d, .error e)
      | (d, .ok []) => (d, .error .noEngine)
      | (d, .ok (b :: _)) => (d, .ok b)

/-- The default engine, which stays the same once it has been found. -/
def default (d : Directory) : Lookup Built :=
  match d.chosen with
  | some b => (d, .ok b)
  | none =>
    match d.findDefault with
    | (d, .ok b) => ({ d with chosen := some b }, .ok b)
    | (d, .error e) => (d, .error e)

def aliasesOf (d : Directory) (b : Built) : List String :=
  Assoc.keys (d.built.filter fun (_, other) => other.number == b.number)

end Directory
end Quill
