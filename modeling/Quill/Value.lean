import Quill.Number
import Quill.Calendar.Date
import Quill.Assoc
import Quill.Text.Html

/-!
Values: the data that templates are filled with.

Lists and maps may hold one another to any depth.  `equal` goes down into them, and that the stack
holds out for data as deep as it is given is taken for granted.
-/

namespace Quill

/-- A text, and whether it is already safe to stand in a page of markup. -/
structure Marked where
  text : String
  safe : Bool
  deriving DecidableEq, Repr

namespace Marked

def plain (s : String) : Marked := ⟨s, false⟩

/-- Two texts joined are safe only if both are. -/
def append (a b : Marked) : Marked := ⟨a.text ++ b.text, a.safe && b.safe⟩

/-- A text made safe: one that is safe already stays as it is. -/
def escaped (t : Marked) : String := if t.safe then t.text else Html.escape t.text

end Marked

/-- A value.  The keys of a map are distinct, in the order in which they were first
written. -/
inductive Value where
  | null
  | bool (b : Bool)
  | number (n : Number)
  | text (t : Marked)
  | list (items : List Value)
  | tuple (items : List Value)
  | map (entries : List (String × Value))
  | date (d : Date)
  | dateTime (t : DateTime)
  deriving Inhabited

namespace Value

def ofString (s : String) : Value := .text (.plain s)

def ofInt (n : Int) : Value := .number (.int n)

def ofEntries (entries : List (String × Value)) : Value := .map (Assoc.ofRows entries)

inductive Kind where
  | null
  | bool
  | number
  | string
  | list
  | map
  | object
  deriving DecidableEq, Repr

def Kind.name : Kind → String
  | .null => "null"
  | .bool => "bool"
  | .number => "number"
  | .string => "string"
  | .list => "list"
  | .map => "map"
  | .object => "object"

/-- Tuples count as lists; dates and times are objects. -/
def kind : Value → Kind
  | .null => .null
  | .bool _ => .bool
  | .number _ => .number
  | .text _ => .string
  | .list _ => .list
  | .tuple _ => .list
  | .map _ => .map
  | .date _ => .object
  | .dateTime _ => .object

def items? : Value → Option (List Value)
  | .list items => some items
  | .tuple items => some items
  | _ => none

/-- What a loop goes through: the items of a list or the values of a map. -/
def elements? : Value → Option (List Value)
  | .list items => some items
  | .tuple items => some items
  | .map entries => some (entries.map Prod.snd)
  | _ => none

def isNaN : Value → Bool
  | .number n => n.isNaN
  | _ => false

def isNumber (v : Value) : Bool := v.kind == .number

def isList (v : Value) : Bool := v.kind == .list

def isMap (v : Value) : Bool := v.kind == .map

/-- Whether a value counts as true: null, false, zero, what is not a number and the empty
text do not, and everything else does, empty lists and maps included.  A signaling decimal
refuses the question. -/
def truth? : Value → Option Bool
  | .null => some false
  | .bool b => some b
  | .number n => n.truth?
  | .text t => some (t.text != "")
  | _ => some true

/-! ## Equality -/

mutual

/-- Equality by kind and content: a number never equals a text, a list equals a tuple with
equal items, maps are equal when they have the same keys with equal values, and times with
known offsets are equal when they are one instant.  Numbers that refuse to be compared are not
equal. -/
def equal : Value → Value → Bool
  | .null, .null => true
  | .bool a, .bool b => a == b
  | .number a, .number b => (a.equal? b).getD false
  | .text a, .text b => a.text == b.text
  | .list a, .list b => equalItems a b
  | .list a, .tuple b => equalItems a b
  | .tuple a, .list b => equalItems a b
  | .tuple a, .tuple b => equalItems a b
  | .map a, .map b => a.length == b.length && equalEntries a b
  | .date a, .date b => a == b
  | .dateTime a, .dateTime b => a.instant == b.instant
  | _, _ => false

def equalItems : List Value → List Value → Bool
  | [], [] => true
  | a :: as, b :: bs => equal a b && equalItems as bs
  | _, _ => false

/-- Whether every entry has an equal one under the same key in the other map. -/
def equalEntries : List (String × Value) → List (String × Value) → Bool
  | [], _ => true
  | (key, a) :: rest, other =>
    (match Assoc.get? key other with
     | some b => equal a b
     | none => false) && equalEntries rest other

end

end Value
end Quill
