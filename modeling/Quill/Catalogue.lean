import Quill.Filter
import Quill.Text.Quoted
import Quill.Text.Scan

/-!
The catalogue of modules that an engine can load filters from, by dotted path.
-/

namespace Quill

/-- What may be offered as a filter: a filter, or a value, which is none. -/
inductive Candidate where
  | filter (f : Filter)
  | value (v : Value)

/-- A module: the filters that it registers, if it registers any, and what it holds under
other names.  Only a package can hold further modules. -/
structure Module where
  path : String
  isPackage : Bool
  library : Option Registry
  members : Assoc Candidate

/-- Why a dotted path could not be followed. -/
inductive ImportError where
  | noPath
  | relative (path : String)
  | notFound (path : String)
  | notPackage (path parent : String)
  | noDots (path : String)
  | noMember (path member : String)
  deriving DecidableEq, Repr

def ImportError.message : ImportError → String
  | .noPath => "Empty module name"
  | .relative path =>
    "the 'package' argument is required to perform a relative import for " ++ Text.quoted path
  | .notFound path => "No module named " ++ Text.quoted path
  | .notPackage path parent =>
    "No module named " ++ Text.quoted path ++ "; " ++ Text.quoted parent ++ " is not a package"
  | .noDots path => path ++ " doesn't look like a module path"
  | .noMember path member =>
    "Module \"" ++ path ++ "\" does not define a \"" ++ member ++ "\" attribute/class"

inductive LibraryError where
  | notImported (path : String) (e : ImportError)
  | unregistered (path : String)
  deriving DecidableEq, Repr

def LibraryError.message : LibraryError → String
  | .notImported path e =>
    "Invalid template library specified. ImportError raised when trying to load '" ++ path ++
      "': " ++ e.message
  | .unregistered path => "Module  " ++ path ++ " does not have a variable named 'register'"

abbrev Catalogue := List Module

namespace Catalogue

def moduleAt? (c : Catalogue) (path : String) : Option Module :=
  List.find? (fun m => m.path == path) c

def ancestry (path : String) : List String :=
  let parts := Text.splitAtChar '.' path.toList
  (List.range parts.length).map fun n =>
    String.ofList (['.'].intercalate (parts.take (n + 1)))

def descend (c : Catalogue) (parent : Option Module) :
    List String → Except ImportError (Option Module)
  | [] => .ok parent
  | path :: rest =>
    match parent, c.moduleAt? path with
    | some p, found =>
      if p.isPackage then
        match found with
        | some m => descend c (some m) rest
        | none => .error (.notFound path)
      else .error (.notPackage path p.path)
    | none, some m => descend c (some m) rest
    | none, none => .error (.notFound path)

/-- The module at a dotted path; every module above it must exist as a package. -/
def load (c : Catalogue) (path : String) : Except ImportError Module :=
  if path = "" then .error .noPath
  else if Text.startsWith ['.'] path.toList then .error (.relative path)
  else
    match c.descend none (ancestry path) with
    | .ok (some m) => .ok m
    | .ok none => .error (.notFound path)
    | .error e => .error e

def isMissing : ImportError → Bool
  | .notFound _ => true
  | .notPackage .. => true
  | _ => false

/-- The filters that the module at a path registers.  Only a missing module is reported as
an error of the library. -/
def library (c : Catalogue) (path : String) : Except (ImportError ⊕ LibraryError) Registry :=
  match c.load path with
  | .error e => .error (if isMissing e then .inr (.notImported path e) else .inl e)
  | .ok m =>
    match m.library with
    | some registry => .ok registry
    | none => .error (.inr (.unregistered path))

/-- What a dotted path leads to: a member of the module before the last dot. -/
def member (c : Catalogue) (path : String) : Except ImportError Candidate := do
  let parts := Text.splitAtChar '.' path.toList
  if parts.length < 2 then throw (.noDots path)
  let modulePath := String.ofList (['.'].intercalate parts.dropLast)
  let name := String.ofList (parts.getLastD [])
  let m ← c.load modulePath
  match m.members.get? name with
  | some found => return found
  | none => throw (.noMember modulePath name)

end Catalogue
end Quill
