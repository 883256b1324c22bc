import Quill.Proofs.Expr.Recursion
import Quill.Template.Node

/-!
Room for quotations.

An operation is quoted around its operands, so there is room for an expression if it is no higher
than the room.  A chain of operators is written flat, and is still as high as it is long.
-/

namespace Quill
namespace Expr

end Expr

end Quill
