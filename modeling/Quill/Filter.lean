import Quill.Value.Text

/-!
Filters: functions that a template may apply to a value, with further values as arguments.
A filter states how many arguments it takes, and a call with too many or too few is a
fault before its body runs.
-/

namespace Quill

structure Filter where
  /-- The name that messages about wrong calls use. -/
  name : String
  /-- The parameters after the value that every call must give. -/
  required : List String
  /-- How many more arguments a call may give. -/
  optional : Nat
  /-- Whether any number of arguments may follow. -/
  variadic : Bool
  body : Value → List Value → Except Fault Value

abbrev Registry := Assoc Filter

namespace Filter

/-- What is wrong with a call that gives `given` arguments after the value. -/
def callProblem? (f : Filter) (given : Nat) : Option CallProblem :=
  let least := f.required.length
  let most := least + f.optional
  if !f.variadic && most < given then some (.tooMany f.name (1 + least) (1 + most) (1 + given))
  else if given < least then some (.missing f.name (f.required.drop given))
  else none

def apply (f : Filter) (value : Value) (arguments : List Value) : Except Fault Value :=
  match f.callProblem? arguments.length with
  | some problem => .error (.badCall problem)
  | none => f.body value arguments

def unary (name : String) (body : Value → Except Fault Value) : Filter :=
  ⟨name, [], 0, false, fun v _ => body v⟩

end Filter
end Quill
