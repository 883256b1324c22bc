import Quill.Scope

/-!
Paths: a name and the steps taken from what it means, into maps by field and into lists by
index.
-/

namespace Quill

inductive Segment where
  | field (name : String)
  | index (i : Int)
  deriving DecidableEq, Repr

structure Path where
  root : String
  steps : List Segment
  deriving DecidableEq, Repr

def Segment.text : Segment → String
  | .field name => "." ++ name
  | .index i => "[" ++ Text.intText i ++ "]"

namespace Path

def text (p : Path) : String := p.root ++ String.join (p.steps.map Segment.text)

def single (name : String) : Path := ⟨name, []⟩

end Path

def Value.step? (v : Value) : Segment → Option Value
  | .field name =>
    match v with
    | .map entries => Assoc.get? name entries
    | _ => none
  | .index i =>
    match v.items? with
    | some items => if 0 ≤ i then items[i.toNat]? else none
    | none => none

/-- What a path leads to, none as soon as a step cannot be taken. -/
def Scope.resolve? (s : Scope) (p : Path) : Option Value :=
  p.steps.foldl (fun v segment => v.bind fun v => v.step? segment) (s.get? p.root)

end Quill
