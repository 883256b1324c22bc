import Quill.Text.Numeral
import Quill.Text.Quoted

/-!
Faults: what can go wrong while values are computed, inside a filter or outside of one.
-/

namespace Quill

inductive CallProblem where
  | tooMany (filter : String) (least most given : Nat)
  | missing (filter : String) (parameters : List String)
  deriving DecidableEq, Repr

namespace CallProblem

/-- Names read out one after another, the last after "and". -/
def conjunction : List String → String
  | [] => ""
  | [a] => s!"'{a}'"
  | [a, b] => s!"'{a}' and '{b}'"
  | [a, b, c] => s!"'{a}', '{b}', and '{c}'"
  | a :: rest => s!"'{a}', " ++ conjunction rest

def message : CallProblem → String
  | .tooMany filter least most given =>
    let taken :=
      if least = most then Text.natText least
      else "from " ++ Text.natText least ++ " to " ++ Text.natText most
    let plural := if most = 1 then "" else "s"
    let verb := if given = 1 then "was" else "were"
    filter ++ "() takes " ++ taken ++ " positional argument" ++ plural ++ " but " ++
      Text.natText given ++ " " ++ verb ++ " given"
  | .missing filter parameters =>
    let plural := if parameters.length = 1 then "" else "s"
    filter ++ "() missing " ++ Text.natText parameters.length ++
      " required positional argument" ++ plural ++ ": " ++ conjunction parameters

end CallProblem

inductive Fault where
  /-- A whole number has too many digits to be written as text. -/
  | numeralTooLong
  /-- A numeral with this many digits is too long to be read. -/
  | longNumeral (digits : Nat)
  /-- A signaling decimal was asked whether it is zero. -/
  | signaling
  | badCall (problem : CallProblem)
  /-- A filter refused its input. -/
  | badValue (reason : String)
  /-- A filter did not find a key. -/
  | missingKey (key : String)
  /-- The stack had no room for a quotation. -/
  | exhausted
  deriving DecidableEq, Repr

namespace Fault

/-- The hint that ends both messages about long numerals. -/
def limitHint : String := "; use sys.set_int_max_str_digits() to increase the limit"

def limitMessage : String :=
  "Exceeds the limit (" ++ Text.natText Text.numeralLimit ++
    " digits) for integer string conversion"

def message : Fault → String
  | .numeralTooLong => limitMessage ++ limitHint
  | .longNumeral digits =>
    limitMessage ++ ": value has " ++ Text.natText digits ++ " digits" ++ limitHint
  | .signaling => "[<class 'decimal.InvalidOperation'>]"
  | .badCall problem => problem.message
  | .badValue reason => reason
  | .missingKey key => Text.quoted key
  | .exhausted => "maximum recursion depth exceeded while getting the repr of an object"

end Fault
end Quill
