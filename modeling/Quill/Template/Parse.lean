import Quill.Template.Node
import Quill.Text.Phrase

/-!
Building the tree of a template from its tokens.  The blocks that are open at a token are
kept as frames, innermost first; each frame remembers what came before its block.
-/

namespace Quill
namespace Template

/-! ## Errors -/

inductive Problem where
  | emptyOutput (line : Nat)
  | emptyBlock (line : Nat)
  | unknownBlock (line : Nat) (command : String) (expected : List String)
  | unexpectedBlock (command : String) (line : Nat) (expected : List String)
  | afterDefault (command : String) (line : Nat)
  | unclosed (line : Nat) (command : String) (expected : List String)
  | argumentsGiven (command : String) (line : Nat)
  | conditionMissing (command : String) (line : Nat)
  | malformedLoop (line : Nat) (contents : String)
  | expression (e : Expr.Malformed)
  | subjectMissing (source : String)
  | invalidStage (text : String)
  deriving DecidableEq, Repr

def expectation (expected : List String) : String :=
  if expected.isEmpty then "." else ", expected " ++ Text.alternatives expected ++ "."

def Problem.message : Problem → String
  | .emptyOutput line => "Empty variable tag on line " ++ Text.natText line
  | .emptyBlock line => "Empty block tag on line " ++ Text.natText line
  | .unknownBlock line command expected =>
    "Invalid block tag on line " ++ Text.natText line ++ ": '" ++ command ++ "'" ++
      expectation expected
  | .unexpectedBlock command line expected =>
    "Unexpected '" ++ command ++ "' on line " ++ Text.natText line ++ expectation expected
  | .afterDefault command line =>
    "Unexpected '" ++ command ++ "' on line " ++ Text.natText line ++ ": '" ++ command ++
      "' cannot follow 'else'."
  | .unclosed line command expected =>
    "Unclosed tag on line " ++ Text.natText line ++ ": '" ++ command ++ "'. Looking for one of: " ++
      ", ".intercalate expected ++ "."
  | .argumentsGiven command line =>
    "'" ++ command ++ "' takes no arguments (line " ++ Text.natText line ++ ")."
  | .conditionMissing command line =>
    "Malformed '" ++ command ++ "' tag on line " ++ Text.natText line ++
      ": a condition is required."
  | .malformedLoop line contents =>
    "Malformed 'for' tag on line " ++ Text.natText line ++
      ": expected 'for <name> in <expression>', got " ++ Text.quoted contents ++ "."
  | .expression e => e.message
  | .subjectMissing source => "Could not find variable at start of " ++ source ++ "."
  | .invalidStage text => "Invalid filter: " ++ Text.quoted text

def Problem.position : Problem → Option Nat
  | .expression e => some e.position
  | _ => none

inductive Refusal where
  | problem (p : Problem)
  | longNumeral (digits : Nat)
  deriving DecidableEq, Repr

/-- Why a template could not be compiled: a problem at a token, or a numeral that is too
long to be read. -/
inductive Failure where
  | malformed (problem : Problem) (token : Token)
  | longNumeral (digits : Nat)
  deriving DecidableEq, Repr

def Refusal.at (token : Token) : Refusal → Failure
  | .problem p => .malformed p token
  | .longNumeral digits => .longNumeral digits

def Refusal.ofExpr : Expr.Failure → Refusal
  | .malformed e => .problem (.expression e)
  | .longNumeral digits => .longNumeral digits

def Refusal.ofPipeline : Pipeline.Failure → Refusal
  | .expression f => .ofExpr f
  | .subjectMissing source => .problem (.subjectMissing source)
  | .invalidStage text => .problem (.invalidStage text)

def attach {α : Type} (token : Token) : Except Refusal α → Except Failure α
  | .ok a => .ok a
  | .error r => .error (r.at token)

/-! ## Open blocks -/

/-- A block that is still open.  A choice holds its finished branches and the condition of
the branch that is being filled. -/
inductive Block where
  | loop (token : Token) (name : String) (items : Expr)
  | choice (token : Token) (finished : List Arm) (condition : Option Expr)

namespace Block

def token : Block → Token
  | .loop t _ _ => t
  | .choice t _ _ => t

def command : Block → String
  | .loop .. => "for"
  | .choice .. => "if"

def expected : Block → List String
  | .loop .. => ["endfor"]
  | .choice _ _ none => ["endif"]
  | .choice _ _ (some _) => ["elif", "else", "endif"]

def close (body : List Node) : Block → Node
  | .loop t name items => .loop t name items body
  | .choice t finished condition => .choice t (finished ++ [.mk condition body])

end Block

/-- An open block and the nodes before it in the list that it stands in, the nearest
first. -/
structure Frame where
  block : Block
  before : List Node

/-- A template in the making: the nodes of the innermost open list so far, last first, and
the open blocks, innermost first. -/
structure Builder where
  nodes : List Node
  frames : List Frame

namespace Builder

def start : Builder := ⟨[], []⟩

def add (b : Builder) (n : Node) : Builder := { b with nodes := n :: b.nodes }

def body (b : Builder) : List Node := b.nodes.reverse

def openBlock (b : Builder) (block : Block) : Builder := ⟨[], ⟨block, b.nodes⟩ :: b.frames⟩

def expected (b : Builder) : List String :=
  match b.frames with
  | [] => []
  | f :: _ => f.block.expected

def unexpected (b : Builder) (t : Token) : Refusal :=
  .problem (.unexpectedBlock t.command t.line b.expected)

end Builder

/-! ## Reading tags -/

/-- Refuses a tag with anything after its first word. -/
def refuseArguments (t : Token) : Except Refusal Unit :=
  if t.contents = t.command then .ok ()
  else .error (.problem (.argumentsGiven t.command t.line))

def readExpr (text : List Char) : Except Refusal Expr :=
  match Expr.parse (String.ofList text) with
  | .ok e => .ok e
  | .error f => .error (.ofExpr f)

def readCondition (t : Token) : Except Refusal Expr :=
  let condition := Text.afterFirstWord t.contents.toList
  if condition.isEmpty then .error (.problem (.conditionMissing t.command t.line))
  else readExpr condition

def afterWord? (word : List Char) (cs : List Char) : Option (List Char) :=
  if Text.startsWith word cs then
    let rest := cs.drop word.length
    if Text.run Text.isBlank rest = 0 then none else some (Text.trimLeft rest)
  else none

/-- The name and the sequence of a loop, from `for name in sequence`. -/
def loopParts? (cs : List Char) : Option (String × List Char) :=
  (afterWord? ['f', 'o', 'r'] cs).bind fun cs =>
    let name := cs.takeWhile Text.isWord
    let rest := cs.dropWhile Text.isWord
    if (name.head?).all Text.isNameStart && !name.isEmpty && Text.run Text.isBlank rest ≠ 0 then
      (afterWord? ['i', 'n'] (Text.trimLeft rest)).bind fun sequence =>
        if sequence.isEmpty then none else some (String.ofList name, Text.trim sequence)
    else none

def readLoop (t : Token) : Except Refusal Block :=
  match loopParts? t.contents.toList with
  | none => .error (.problem (.malformedLoop t.line t.contents))
  | some (name, sequence) => do
    let items ← readExpr sequence
    return .loop t name items

/-! ## Block tags -/

namespace Builder

/-- Closes the innermost block, which must have been opened by `command`. -/
def close (b : Builder) (command : String) (t : Token) : Except Refusal Builder := do
  refuseArguments t
  match b.frames with
  | f :: rest =>
    if f.block.command = command then
      return ⟨f.block.close b.body :: f.before, rest⟩
    else throw (b.unexpected t)
  | [] => throw (b.unexpected t)

/-- The choice that is innermost and can take another branch: its token, its branches so
far with the open one finished, and what came before it. -/
def choiceToExtend (b : Builder) (t : Token) :
    Except Refusal (Token × List Arm × List Node × List Frame) :=
  match b.frames with
  | ⟨.choice opener finished condition, before⟩ :: rest =>
    match condition with
    | none => .error (.problem (.afterDefault t.command t.line))
    | some c => .ok (opener, finished ++ [.mk (some c) b.body], before, rest)
  | _ => .error (b.unexpected t)

def block (b : Builder) (t : Token) : Except Refusal Builder :=
  let command := t.command
  if command = "for" then do return b.openBlock (← readLoop t)
  else if command = "endfor" then b.close "for" t
  else if command = "if" then do return b.openBlock (.choice t [] (some (← readCondition t)))
  else if command = "elif" then do
    let (opener, arms, before, rest) ← b.choiceToExtend t
    let condition ← readCondition t
    return ⟨[], ⟨.choice opener arms (some condition), before⟩ :: rest⟩
  else if command = "else" then do
    refuseArguments t
    let (opener, arms, before, rest) ← b.choiceToExtend t
    return ⟨[], ⟨.choice opener arms none, before⟩ :: rest⟩
  else if command = "endif" then b.close "if" t
  else if command = "" then .error (.problem (.emptyBlock t.line))
  else .error (.problem (.unknownBlock t.line command b.expected))

def output (b : Builder) (t : Token) : Except Refusal Builder :=
  if t.contents = "" then .error (.problem (.emptyOutput t.line))
  else
    match Pipeline.read t.contents with
    | .ok p => .ok (b.add (.output t p))
    | .error f => .error (.ofPipeline f)

def step (b : Builder) (t : Token) : Except Failure Builder :=
  match t.kind with
  | .text => .ok (b.add (.text t))
  | .output => attach t (b.output t)
  | .block => attach t (b.block t)

def finish (b : Builder) : Except Failure (List Node) :=
  match b.frames with
  | [] => .ok b.body
  | f :: _ =>
    let t := f.block.token
    .error (.malformed (.unclosed t.line f.block.command f.block.expected) t)

end Builder

def parseTokens (tokens : List Token) : Except Failure (List Node) := do
  (← tokens.foldlM Builder.step Builder.start).finish

end Template
end Quill
