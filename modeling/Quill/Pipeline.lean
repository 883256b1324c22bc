import Quill.Expr.Parse
import Quill.Expr.Eval
import Quill.Text.Trim
import Quill.Filter

/-!
Pipelines: an expression whose value is passed through filters, `subject|name:arguments`.

A bar separates stages unless it stands in a string literal, inside parentheses or as half
of the operator `||`.  The arguments of a stage are separated by commas and white space.
-/

namespace Quill

/-- An argument of a filter: a literal, or a path that is looked up when the filter runs
and stands for its own source text when it leads nowhere. -/
inductive Argument where
  | literal (l : Literal)
  | lookup (path : Path) (source : String)
  deriving DecidableEq, Repr

def Argument.quoted : Argument → String
  | .literal l => "<Literal: " ++ l.quoted ++ ">"
  | .lookup _ source => "<FilterArgument: " ++ source ++ ">"

def Argument.eval (s : Scope) : Argument → Trace Fault Value
  | .literal l => pure l.value
  | .lookup path source => do return (← path.find s).getD (.ofString source)

structure Stage where
  name : String
  arguments : List Argument
  deriving DecidableEq, Repr

structure Pipeline where
  source : String
  subject : Expr
  stages : List Stage
  deriving DecidableEq, Repr

namespace Pipeline

/-! ## Splitting -/

/-- The parts of a text between separating bars.  `quote` is the quote of the literal that
is being passed, `depth` the number of open parentheses, and `part` the part so far, last
character first. -/
def partsFrom (quote : Option Char) (depth : Nat) (part : List Char) : List Char → List (List Char)
  | [] => [part.reverse]
  | c :: rest =>
    match quote with
    | some q =>
      if c == '\\' then
        match rest with
        | [] => [(c :: part).reverse]
        | d :: rest => partsFrom quote depth (d :: c :: part) rest
      else if c == q then partsFrom none depth (c :: part) rest
      else partsFrom quote depth (c :: part) rest
    | none =>
      if c == '"' || c == '\'' then partsFrom (some c) depth (c :: part) rest
      else if c == '(' then partsFrom none (depth + 1) (c :: part) rest
      else if c == ')' then partsFrom none (depth - 1) (c :: part) rest
      else if c == '|' && depth == 0 then
        match rest with
        | [] => [part.reverse, []]
        | d :: others =>
          if d == '|' then partsFrom none depth (d :: c :: part) others
          else part.reverse :: partsFrom none depth [] (d :: others)
      else partsFrom none depth (c :: part) rest

def split (text : String) : List String :=
  (partsFrom none 0 [] text.toList).map fun part => String.ofList (Text.trim part)

/-! ## Arguments -/

/-- The length of the argument that a text begins with: a string literal, or anything up
to a comma or white space. -/
def argumentLength? (cs : List Char) : Option Nat :=
  match Text.literalLength? cs with
  | some n => some n
  | none => some (Text.run (fun c => !Text.isBlank c && c != ',') cs)

def isNumeral (cs : List Char) : Bool :=
  let digits :=
    match cs with
    | '-' :: rest => rest
    | _ => cs
  (digits.head?).any Text.isDigit && Lexeme.numberLength digits == digits.length

def readArgument (piece : List Char) : Except Expr.Failure Argument :=
  if Text.literalLength? piece = some piece.length then
    .ok (.literal (.text (String.ofList (Text.literalText piece))))
  else
    let source := String.ofList piece
    if source = "true" then .ok (.literal (.bool true))
    else if source = "false" then .ok (.literal (.bool false))
    else if isNumeral piece then do
      let negative := piece.head? == some '-'
      let n ← Expr.readNumber negative (String.ofList (if negative then piece.drop 1 else piece))
      return .literal n
    else
      match Path.parse source with
      | .ok p => .ok (.lookup p source)
      | .error (.longNumeral digits) => .error (.longNumeral digits)
      | .error (.malformed _) => .ok (.lookup (.single source) source)

def argumentPieces (text : String) : List (List Char) :=
  (Text.matchSpans argumentLength? text.toList).map (Text.slice text.toList)

def readArguments (text : String) : Except Expr.Failure (List Argument) :=
  (argumentPieces text).mapM readArgument

/-! ## Reading -/

inductive Failure where
  | expression (f : Expr.Failure)
  | subjectMissing (source : String)
  | invalidStage (text : String)
  deriving DecidableEq, Repr

def liftExpr {α : Type} : Except Expr.Failure α → Except Failure α
  | .ok a => .ok a
  | .error f => .error (.expression f)

/-- A stage: the name of a filter, and after a colon its arguments.  A line break may
follow a name without arguments. -/
def readStage (text : String) : Except Failure Stage :=
  let cs := text.toList
  let name := cs.takeWhile Text.isWord
  let rest := cs.dropWhile Text.isWord
  if name.isEmpty then .error (.invalidStage text)
  else
    match rest with
    | [] => .ok ⟨String.ofList name, []⟩
    | ['\n'] => .ok ⟨String.ofList name, []⟩
    | ':' :: arguments => do
      let arguments ← liftExpr (readArguments (String.ofList arguments))
      return ⟨String.ofList name, arguments⟩
    | _ => .error (.invalidStage text)

def read (source : String) : Except Failure Pipeline :=
  match split source with
  | [] => .error (.subjectMissing source)
  | subject :: stages =>
    if subject.isEmpty then .error (.subjectMissing source)
    else do
      let subject ← liftExpr (Expr.parse subject)
      let stages ← stages.mapM readStage
      return ⟨source, subject, stages⟩

end Pipeline
end Quill
