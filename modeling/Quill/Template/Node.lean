import Quill.Pipeline
import Quill.Template.Token

/-!
The tree of a template: literal text, output tags, loops and choices.  Every node keeps the
token it came from.

A walk over all nodes goes down into the blocks.  That the stack holds out for blocks as deep as the
source nests them is taken for granted; only for the quotation of an expression is room counted.
-/

namespace Quill

mutual

inductive Node where
  | text (token : Token)
  | output (token : Token) (pipeline : Pipeline)
  | loop (token : Token) (name : String) (items : Expr) (body : List Node)
  | choice (token : Token) (arms : List Arm)

/-- One branch of a choice; without a condition it is always taken. -/
inductive Arm where
  | mk (condition : Option Expr) (body : List Node)

end

namespace Arm

def condition : Arm → Option Expr
  | .mk c _ => c

def body : Arm → List Node
  | .mk _ b => b

end Arm

namespace Node

def token : Node → Token
  | .text t => t
  | .output t _ => t
  | .loop t _ _ _ => t
  | .choice t _ => t

/-- The quoted form of a node, if there is room for that of the expression in it. -/
def quoted? (room : Nat) : Node → Option String
  | .text t =>
    some ("<TextNode: " ++ Text.quoted (String.ofList (t.contents.toList.take 25)) ++ ">")
  | .output _ p => some ("<Variable Node: " ++ p.source ++ ">")
  | .loop _ name items body => do
    let sequence ← items.quoted? room
    return "<ForNode: for " ++ name ++ " in " ++ sequence ++ ", tail_len: " ++
      Text.natText body.length ++ ">"
  | .choice _ _ => some "<IfNode>"

def hasDefault (arms : List Arm) : Bool := arms.any fun a => a.condition.isNone

/-! ## All nodes of a tree -/

mutual

/-- A node and all nodes inside it, each before what it holds. -/
def all : Node → List Node
  | .text t => [.text t]
  | .output t p => [.output t p]
  | .loop t name items body => .loop t name items body :: allOf body
  | .choice t arms => .choice t arms :: allOfArms arms

def allOf : List Node → List Node
  | [] => []
  | n :: rest => all n ++ allOf rest

def allOfArms : List Arm → List Node
  | [] => []
  | .mk _ body :: rest => allOf body ++ allOfArms rest

end

inductive Kind where
  | text
  | output
  | loop
  | choice
  deriving DecidableEq, Repr

def kind : Node → Kind
  | .text .. => .text
  | .output .. => .output
  | .loop .. => .loop
  | .choice .. => .choice

mutual

def select (wanted : Node → Bool) : Node → List Node
  | .text t => [Node.text t].filter wanted
  | .output t p => [Node.output t p].filter wanted
  | .loop t name items body => [Node.loop t name items body].filter wanted ++ selectOf wanted body
  | .choice t arms => [Node.choice t arms].filter wanted ++ selectOfArms wanted arms

def selectOf (wanted : Node → Bool) : List Node → List Node
  | [] => []
  | n :: rest => select wanted n ++ selectOf wanted rest

def selectOfArms (wanted : Node → Bool) : List Arm → List Node
  | [] => []
  | .mk _ body :: rest => selectOf wanted body ++ selectOfArms wanted rest

end

def allOfKind (k : Kind) (nodes : List Node) : List Node := selectOf (fun n => n.kind == k) nodes

/-! ## Laws -/

mutual

theorem select_eq_filter (wanted : Node → Bool) (n : Node) :
    select wanted n = (all n).filter wanted := by
  match n with
  | .text _ | .output _ _ => rfl
  | .loop _ _ _ body =>
    rw [select, all, selectOf_eq_filter wanted body, ← List.filter_append]
    rfl
  | .choice _ arms =>
    rw [select, all, selectOfArms_eq_filter wanted arms, ← List.filter_append]
    rfl

/-- Walking a tree for some of its nodes leaves those out of all its nodes that are not wanted. -/
theorem selectOf_eq_filter (wanted : Node → Bool) (nodes : List Node) :
    selectOf wanted nodes = (allOf nodes).filter wanted := by
  match nodes with
  | [] => rfl
  | n :: rest =>
    rw [selectOf, allOf, List.filter_append, select_eq_filter wanted n,
      selectOf_eq_filter wanted rest]

theorem selectOfArms_eq_filter (wanted : Node → Bool) (arms : List Arm) :
    selectOfArms wanted arms = (allOfArms arms).filter wanted := by
  match arms with
  | [] => rfl
  | .mk _ body :: rest =>
    rw [selectOfArms, allOfArms, List.filter_append, selectOf_eq_filter wanted body,
      selectOfArms_eq_filter wanted rest]

end

end Node
end Quill
