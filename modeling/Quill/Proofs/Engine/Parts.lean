import Quill.Engine
import Quill.Proofs.Outcome
import Quill.Proofs.Tables

/-!
What an engine is built from.

The options of an engine are checked one after another, and what passes is enough to build it: a
limit that allows a block, and rows that are written one after another to an empty registry.
-/

namespace Quill
namespace Engine

variable {c : Catalogue} {o : Options} {p : Parts} {e : Engine}

def Parts.rows (p : Parts) : List (String × Filter) :=
  Filter.standard ++ p.libraries.flatten ++ p.given

end Engine
end Quill
