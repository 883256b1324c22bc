/-!
Lists of names as they are read out in a message.
-/

namespace Quill
namespace Text

/-- The items between single quotes, with commas and a last "or". -/
def alternatives : List String → String
  | [] => ""
  | [a] => s!"'{a}'"
  | [a, b] => s!"'{a}' or '{b}'"
  | a :: rest => s!"'{a}', " ++ alternatives rest

end Text
end Quill
