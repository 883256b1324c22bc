import Quill.Engine.Session
import Quill.Proofs.Engine.Parts

/-!
What an engine remembers of its past.

Of all that is done with an engine only two things matter later: the filters that were added and
removed, in order, and for each kept template the moment when it was compiled.  A template is
rendered with the filters of that moment, and everything new with the filters as they are now.  This
rests on places: the engine and each kept template refer to a place of their own (`Apart`), and
after the engine was built nothing is written to any old place but that of the engine (`Follows`).
-/

namespace Quill

/-! ## Changes of the registry -/

abbrev Registry.Change := String × Option Filter

def Registry.change (r : Registry) : Registry.Change → Registry
  | (name, some f) => r.set name f
  | (name, none) => r.erase name

namespace Engine

end Engine

namespace Session

variable {s s' : Session} {id source : String} {name : Option String} {t : Template}

/-! ## Places -/

/-- Whether a session is another one later on.  Nothing was written but to new places and to that of
the engine. -/
structure Follows (s s' : Session) : Prop where
  autoescape : s'.autoescape = s.autoescape
  maxDepth : s'.maxDepth = s.maxDepth
  debug : s'.debug = s.debug
  filters : s'.filters = s.filters
  size : s.shelf.size ≤ s'.shelf.size
  read : ∀ p, p < s.shelf.size → p ≠ s.filters → s'.shelf.read p = s.shelf.read p

namespace Follows

theorem refl (s : Session) : Follows s s :=
  ⟨rfl, rfl, rfl, rfl, Nat.le_refl _, fun _ _ _ => rfl⟩

theorem trans {s'' : Session} (h : Follows s s') (h' : Follows s' s'') : Follows s s'' where
  autoescape := h'.autoescape.trans h.autoescape
  maxDepth := h'.maxDepth.trans h.maxDepth
  debug := h'.debug.trans h.debug
  filters := h'.filters.trans h.filters
  size := Nat.le_trans h.size h'.size
  read p hp hne := by
    have hlater : p < s'.shelf.size := Nat.lt_of_lt_of_le hp h.size
    have hother : p ≠ s'.filters := h.filters ▸ hne
    rw [h'.read p hlater hother, h.read p hp hne]

end Follows

def Outcome.answer (o : Session.Outcome) : List LogLine × Except Failure Answer := (o.log, o.result)

def after (s : Session) (commands : List Command) : Session :=
  commands.foldl (fun s c => (s.step c).session) s

end Session
end Quill
