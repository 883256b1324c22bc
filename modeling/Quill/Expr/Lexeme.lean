import Quill.Text.Scan
import Quill.Text.Word
import Quill.Text.Blank
import Quill.Text.Quoted
import Quill.Text.Numeral

/-!
Lexemes: the words of an expression.  `Lexeme.scan` splits a text into lexemes with their
positions, white space left out, and ends the list with a lexeme that marks the end.
-/

namespace Quill

namespace Expr

inductive Problem where
  | unexpectedCharacter (c : Char)
  | empty
  | unexpected (text : String)
  | unexpectedEnd
  | tooDeep
  | closingParenthesisMissing
  | nameMissing
  | fieldMissing
  | indexMissing
  | indexNotWhole
  | closingBracketMissing
  | pathMissing
  deriving DecidableEq, Repr

/-- How many parentheses and negations may enclose one another. -/
def maxNesting : Nat := 64

def Problem.message : Problem → String
  | .unexpectedCharacter c => "unexpected character " ++ Text.quoted (String.singleton c)
  | .empty => "empty expression"
  | .unexpected text => "unexpected " ++ Text.quoted text
  | .unexpectedEnd => "unexpected end of expression"
  | .tooDeep => "expression nested too deeply (more than " ++ Text.natText maxNesting ++ " levels)"
  | .closingParenthesisMissing => "expected ')'"
  | .nameMissing => "expected a name"
  | .fieldMissing => "expected a name after '.'"
  | .indexMissing => "expected an integer index after '['"
  | .indexNotWhole => "index must be an integer"
  | .closingBracketMissing => "expected ']'"
  | .pathMissing => "expected a path"

structure Malformed where
  text : String
  problem : Problem
  position : Nat
  deriving DecidableEq, Repr

def Malformed.message (e : Malformed) : String :=
  "Could not parse expression " ++ Text.quoted e.text ++ ": " ++ e.problem.message ++
    " at position " ++ Text.natText e.position ++ "."

/-- Why a text could not be read: it is malformed, or one of its numerals has too many
digits to be read. -/
inductive Failure where
  | malformed (e : Malformed)
  | longNumeral (digits : Nat)
  deriving DecidableEq, Repr

end Expr

namespace Lexeme

inductive Kind where
  | number
  | string
  | name
  | operator
  | punct
  | eof
  deriving DecidableEq, Repr

def Kind.label : Kind → String
  | .number => "NUMBER"
  | .string => "STRING"
  | .name => "NAME"
  | .operator => "OPERATOR"
  | .punct => "PUNCT"
  | .eof => "EOF"

end Lexeme

structure Lexeme where
  kind : Lexeme.Kind
  text : String
  position : Nat
  deriving DecidableEq, Repr

namespace Lexeme

def numberLength (cs : List Char) : Nat :=
  let whole := Text.run Text.isDigit cs
  match cs.drop whole with
  | '.' :: rest =>
    let fraction := Text.run Text.isDigit rest
    if fraction = 0 then whole else whole + 1 + fraction
  | _ => whole

/-- The length of the operator that a text begins with; the longer operators come first. -/
def operatorLength? : List Char → Option Nat
  | '&' :: '&' :: _ => some 2
  | '|' :: '|' :: _ => some 2
  | '=' :: '=' :: _ => some 2
  | '!' :: '=' :: _ => some 2
  | '<' :: '=' :: _ => some 2
  | '>' :: '=' :: _ => some 2
  | c :: _ => if ['-', '+', '*', '/', '%', '<', '>', '!'].contains c then some 1 else none
  | [] => none

def leading? (cs : List Char) : Option (Option Kind × Nat) :=
  match cs with
  | [] => none
  | c :: _ =>
    if Text.isBlank c then some (none, Text.run Text.isBlank cs)
    else if Text.isDigit c then some (some .number, numberLength cs)
    else
      match Text.literalLength? cs with
      | some n => some (some .string, n)
      | none =>
        if Text.isNameStart c then some (some .name, Text.run Text.isWord cs)
        else
          match operatorLength? cs with
          | some n => some (some .operator, n)
          | none => if ['(', ')', '[', ']', '.'].contains c then some (some .punct, 1) else none

/-- The lexemes from `position` on, where the first `skip` characters belong to what was
found before. -/
def scanFrom : Nat → Nat → List Char → Except (Char × Nat) (List Lexeme)
  | _, position, [] => .ok [⟨.eof, "", position⟩]
  | skip + 1, position, _ :: rest => scanFrom skip (position + 1) rest
  | 0, position, c :: rest =>
    match leading? (c :: rest) with
    | some (none, n + 1) => scanFrom n (position + 1) rest
    | some (some kind, n + 1) => do
      let others ← scanFrom n (position + 1) rest
      return ⟨kind, String.ofList ((c :: rest).take (n + 1)), position⟩ :: others
    | _ => .error (c, position)

def scan (text : String) : Except Expr.Malformed (List Lexeme) :=
  match scanFrom 0 0 text.toList with
  | .ok lexemes => .ok lexemes
  | .error (c, position) => .error ⟨text, .unexpectedCharacter c, position⟩

def quoted (l : Lexeme) : String :=
  "ExpressionToken(" ++ l.kind.label ++ ", " ++ Text.quoted l.text ++ ", pos=" ++
    Text.natText l.position ++ ")"

end Lexeme
end Quill
