import Quill.Expr
import Quill.Expr.Lexeme

/-!
Reading expressions by recursive descent.  The functions move a cursor over the lexemes;
binary operators of one level are chained to the left, and what binds tighter is read
first.
-/

namespace Quill
namespace Expr

/-! ## The cursor -/

structure Cursor where
  rest : List Lexeme
  depth : Nat
  deriving DecidableEq, Repr

namespace Cursor

def current (c : Cursor) : Lexeme := c.rest.headD ⟨.eof, "", 0⟩

/-- The lexeme after the current one; the end mark has none after it. -/
def next (c : Cursor) : Lexeme :=
  match c.rest with
  | _ :: l :: _ => l
  | _ => c.current

/-- The cursor behind the current lexeme; it never moves past the end mark. -/
def advance (c : Cursor) : Cursor :=
  match c.rest with
  | l :: rest => if l.kind = .eof then c else { c with rest := rest }
  | [] => c

def isAt (c : Cursor) (kind : Lexeme.Kind) (text : String) : Bool :=
  c.current.kind == kind && c.current.text == text

end Cursor

def problemAt {α : Type} (text : String) (problem : Problem) (l : Lexeme) : Except Failure α :=
  .error (.malformed ⟨text, problem, l.position⟩)

def enter (text : String) (l : Lexeme) (c : Cursor) : Except Failure Cursor :=
  if maxNesting < c.depth + 1 then problemAt text .tooDeep l
  else .ok { c with depth := c.depth + 1 }

def leave (c : Cursor) : Cursor := { c with depth := c.depth - 1 }

/-! ## Literals and paths -/

def readWhole (digits : String) : Except Failure Nat :=
  if Text.numeralLimit < digits.length then .error (.longNumeral digits.length)
  else .ok (Text.natOfDigits digits.toList)

/-- The literal of a numeral: a double when it has a point, a whole number otherwise. -/
def readNumber (negative : Bool) (numeral : String) : Except Failure Literal :=
  if numeral.toList.contains '.' then
    let x := (Binary64.readDecimal? numeral.toList).getD .nan
    .ok (.float (if negative then x.neg else x))
  else do
    let n ← readWhole numeral
    return .int (if negative then -Int.ofNat n else Int.ofNat n)

def parseSteps (text : String) :
    List Segment → List Lexeme → Except Failure (List Segment × List Lexeme)
  | steps, [] => .ok (steps, [])
  | steps, l :: rest =>
    if l.kind = .punct ∧ l.text = "." then
      match rest with
      | [] => problemAt text .fieldMissing l
      | field :: rest =>
        if field.kind = .name then parseSteps text (steps ++ [.field field.text]) rest
        else problemAt text .fieldMissing field
    else if l.kind = .punct ∧ l.text = "[" then
      match rest with
      | [] => problemAt text .indexMissing l
      | index :: rest =>
        if index.kind ≠ .number then problemAt text .indexMissing index
        else if index.text.toList.contains '.' then problemAt text .indexNotWhole index
        else
          match rest with
          | [] => problemAt text .closingBracketMissing index
          | close :: rest =>
            if close.kind = .punct ∧ close.text = "]" then do
              let i ← readWhole index.text
              parseSteps text (steps ++ [.index (Int.ofNat i)]) rest
            else problemAt text .closingBracketMissing close
    else .ok (steps, l :: rest)

def parsePathAt (text : String) (c : Cursor) : Except Failure (Path × Cursor) :=
  if c.current.kind = .name then do
    let (steps, rest) ← parseSteps text [] c.advance.rest
    return (⟨c.current.text, steps⟩, { c with rest := rest })
  else problemAt text .nameMissing c.current

/-! ## Expressions -/

def operatorAt? (level : Nat) (c : Cursor) : Option Operator :=
  if c.current.kind = .operator then
    (Operator.ofSymbol? c.current.text).filter fun op => op.level == level
  else none

mutual

/-- Operands of one level and the operators between them.  `fuel` bounds the calls that are
open at one time. -/
def parseBinary (text : String) : Nat → Nat → Cursor → Except Failure (Expr × Cursor)
  | 0, _, c => problemAt text .unexpectedEnd c.current
  | fuel + 1, level, c =>
    if level = Operator.levels then parseUnary text fuel c
    else do
      let (left, c) ← parseBinary text fuel (level + 1) c
      parseChain text fuel level left c

/-- The rest of a chain whose operands so far have been joined into `left`. -/
def parseChain (text : String) : Nat → Nat → Expr → Cursor → Except Failure (Expr × Cursor)
  | 0, _, _, c => problemAt text .unexpectedEnd c.current
  | fuel + 1, level, left, c =>
    match operatorAt? level c with
    | none => .ok (left, c)
    | some op => do
      let (right, c) ← parseBinary text fuel (level + 1) c.advance
      parseChain text fuel level (.binary op left right) c

def parseUnary (text : String) : Nat → Cursor → Except Failure (Expr × Cursor)
  | 0, c => problemAt text .unexpectedEnd c.current
  | fuel + 1, c =>
    if c.isAt .operator "!" then do
      let inner ← enter text c.current c.advance
      let (operand, c) ← parseUnary text fuel inner
      return (.not operand, leave c)
    else parsePrimary text fuel c

def parsePrimary (text : String) : Nat → Cursor → Except Failure (Expr × Cursor)
  | 0, c => problemAt text .unexpectedEnd c.current
  | fuel + 1, c =>
    let l := c.current
    if l.kind = .number then do
      let n ← readNumber false l.text
      return (.literal n, c.advance)
    else if c.isAt .operator "-" && c.next.kind == .number then do
      let n ← readNumber true c.next.text
      return (.literal n, c.advance.advance)
    else if l.kind = .string then
      .ok (.literal (.text (String.ofList (Text.literalText l.text.toList))), c.advance)
    else if l.kind = .name then
      match Literal.ofWord? l.text with
      | some word => .ok (.literal word, c.advance)
      | none => do
        let (p, c) ← parsePathAt text c
        return (.path p, c)
    else if c.isAt .punct "(" then do
      let inner ← enter text l c.advance
      let (e, c) ← parseBinary text fuel 0 inner
      if c.isAt .punct ")" then return (e, leave c.advance)
      else problemAt text .closingParenthesisMissing c.current
    else if l.kind = .eof then problemAt text .unexpectedEnd l
    else problemAt text (.unexpected l.text) l

end

/-- Calls enough for a list of lexemes: each lexeme opens at most ten. -/
def fuelFor (lexemes : List Lexeme) : Nat := 10 * (lexemes.length + 1)

def lexemesOf (text : String) : Except Failure (List Lexeme) :=
  match Lexeme.scan text with
  | .ok lexemes => .ok lexemes
  | .error e => .error (.malformed e)

def parseLexemes (text : String) (lexemes : List Lexeme) : Except Failure Expr := do
  let start : Cursor := ⟨lexemes, 0⟩
  if start.current.kind = .eof then problemAt text .empty start.current
  else
    let (e, c) ← parseBinary text (fuelFor lexemes) 0 start
    if c.current.kind = .eof then return e
    else problemAt text (.unexpected c.current.text) c.current

def parse (text : String) : Except Failure Expr := do
  parseLexemes text (← lexemesOf text)

end Expr

/-- The path that a text spells, with nothing around it. -/
def Path.parse (text : String) : Except Expr.Failure Path := do
  let start : Expr.Cursor := ⟨← Expr.lexemesOf text, 0⟩
  let l := start.current
  if l.kind ≠ .name ∨ (Literal.ofWord? l.text).isSome then Expr.problemAt text .pathMissing l
  else
    let (p, c) ← Expr.parsePathAt text start
    if c.current.kind = .eof then return p
    else Expr.problemAt text (.unexpected c.current.text) c.current

end Quill
