/-!
The count of blocks that a rendering is inside of, and its limit.
-/

namespace Quill

structure Nesting where
  limit : Int
  depth : Nat
  deriving DecidableEq, Repr

namespace Nesting

def start (limit : Int) : Nesting := ⟨limit, 0⟩

def enter? (n : Nesting) : Option Nesting :=
  if n.limit ≤ Int.ofNat n.depth then none else some { n with depth := n.depth + 1 }

def leave (n : Nesting) : Nesting := { n with depth := n.depth - 1 }

theorem leave_enter {n m : Nesting} (h : n.enter? = some m) : m.leave = n := by
  obtain ⟨limit, depth⟩ := n
  simp only [enter?] at h
  split at h
  · cases h
  · injection h with h
    subst h
    rfl

end Nesting
end Quill
