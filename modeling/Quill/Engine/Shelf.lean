import Quill.Filter

/-!
Registries at places.

An engine and its templates do not hold their registries, they refer to the places where these
stand.  Whatever refers to a place sees what is written there, so a registry that is to be kept is
copied to a new place.
-/

namespace Quill

structure Shelf where
  registries : List Registry

namespace Shelf

abbrev Place := Nat

def size (s : Shelf) : Nat := s.registries.length

/-- The registry at a place, empty where none has been put. -/
def read (s : Shelf) (p : Place) : Registry := s.registries[p]?.getD []

def write (s : Shelf) (p : Place) (f : Registry → Registry) : Shelf := ⟨s.registries.modify p f⟩

def put (s : Shelf) (r : Registry) : Shelf × Place := (⟨s.registries ++ [r]⟩, s.size)

def copy (s : Shelf) (p : Place) : Shelf × Place := s.put (s.read p)

def addAll (s : Shelf) (p : Place) (sources : List Place) : Shelf :=
  sources.foldl (fun s q => s.write p fun r => r.setAll (s.read q)) s

/-- Gathers the registries at some places, and then some rows, in a registry at a new place. -/
def gather (s : Shelf) (sources : List Place) (rows : List (String × Filter)) : Shelf × Place :=
  let (s, p) := s.put []
  ((s.addAll p sources).write p fun r => r.setAll rows, p)

/-! ## Laws -/

variable {s : Shelf} {p q : Place} {f : Registry → Registry}

end Shelf
end Quill
