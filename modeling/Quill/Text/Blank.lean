import Quill.Text.Ranges

/-!
White space: the characters that separate words, that trimming removes and that
may stand between the tokens of an expression.
-/

namespace Quill
namespace Text

/-- The code points of white space, the four information separators and NEL included. -/
def blankRanges : List (Nat × Nat) := [
  (9, 13), (28, 32), (133, 133), (160, 160), (5760, 5760), (8192, 8202), (8232, 8233),
  (8239, 8239), (8287, 8287), (12288, 12288)]

def isBlank (c : Char) : Bool := inRanges blankRanges c.toNat

end Text
end Quill
