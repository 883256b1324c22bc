import Quill.Filter.Letters
import Quill.Filter.Dates
import Quill.Filter.Money

/-!
The filters that every engine starts with.
-/

namespace Quill

def Filter.standard : Registry :=
  [("upper", Filter.upper), ("lower", Filter.lower), ("truncate", Filter.truncate),
    ("safe", Filter.safe), ("formatDate", Filter.formatDate), ("formatUSD", Filter.formatUsd)]

end Quill
