import Quill.Assoc
import Quill.Filter

/-!
Libraries: collections of functions under the names by which templates call them.  A
function may be registered under several names and remembers the last one.
-/

namespace Quill

/-- A function that can be registered.  `wraps` is the name of the function that it was
made from, if there is one. -/
structure Function where
  /-- Tells functions apart. -/
  identity : String
  name : String
  wraps : Option String
  deriving DecidableEq, Repr

def Function.ownName (f : Function) : String := f.wraps.getD f.name

structure Library where
  functions : Assoc Function
  /-- The name that each function, by its identity, was last registered under. -/
  labels : Assoc String

/-- A function was offered together with the absence of a name. -/
inductive NameMissing where
  | mk (function : Function)

namespace Library

def empty : Library := ⟨[], []⟩

def register (l : Library) (name : String) (f : Function) : Library :=
  ⟨l.functions.set name f, l.labels.set f.identity name⟩

/-- Registers a function under its own name. -/
def registerOwn (l : Library) (f : Function) : Library := l.register f.ownName f

/-- Registers a function under a name that may be missing, which is refused. -/
def registerPair (l : Library) (name : Option String) (f : Function) :
    Except NameMissing Library :=
  match name with
  | some name => .ok (l.register name f)
  | none => .error ⟨f⟩

def rows (l : Library) : List (String × String × Option String) :=
  let rows := l.functions.map fun (name, f) => (name, f.name, l.labels.get? f.identity)
  rows.mergeSort fun a b => a.1 ≤ b.1

end Library
end Quill
