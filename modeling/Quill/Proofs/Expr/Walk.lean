import Quill.Expr.Parse

/-!
Reading expressions by places in a list.

The list of lexemes stays as it is; a place in it moves on, and one count tells how many
parentheses and negations are open.  A walk notes each call and each turn of a loop, each lexeme
that is asked for, each move of the cursor, and each time that the count is raised.  To ask for a
lexeme outside the list would stop it, and so would calls that are cut off because there is no fuel
left.
-/

namespace Quill
namespace Expr

/-! ## Walks -/

inductive Task where
  | binary (level : Nat)
  | chain (level : Nat)
  | unary
  | primary
  | steps
  deriving DecidableEq, Repr

/-- A place in a list of lexemes, and how many parentheses and negations are open there. -/
structure Spot where
  place : Nat
  depth : Nat
  deriving DecidableEq, Repr

inductive Action where
  /-- A call begins, or a loop comes around. -/
  | turn (task : Task)
  /-- The lexeme at a place is asked for. -/
  | read (place : Nat)
  /-- The cursor has moved behind a lexeme. -/
  | advance
  /-- The count of open parentheses and negations has been raised. -/
  | enter
  deriving DecidableEq, Repr

structure Moment where
  action : Action
  spot : Spot
  deriving DecidableEq, Repr

inductive Stop where
  | failed (f : Failure)
  | outside
  | exhausted
  deriving DecidableEq, Repr

structure Walked (α : Type) where
  moments : List Moment
  result : Except Stop (α × Spot)

def Walk (α : Type) : Type := List Lexeme → Spot → Walked α

namespace Walk

variable {α β : Type}

def andThen (w : Walk α) (f : α → Walk β) : Walk β := fun ls s =>
  match (w ls s).result with
  | .error e => ⟨(w ls s).moments, .error e⟩
  | .ok (a, s') => ⟨(w ls s).moments ++ (f a ls s').moments, (f a ls s').result⟩

instance : Monad Walk where
  pure a := fun _ s => ⟨[], .ok (a, s)⟩
  bind := andThen

def ofExcept (x : Except Failure α) : Walk α := fun _ s =>
  ⟨[], match x with
    | .ok a => .ok (a, s)
    | .error f => .error (.failed f)⟩

def exhausted : Walk α := fun _ _ => ⟨[], .error .exhausted⟩

def note (action : Action) : Walk Unit := fun _ s => ⟨[⟨action, s⟩], .ok ((), s)⟩

def spot : Walk Spot := fun _ s => ⟨[], .ok (s, s)⟩

def move (f : Spot → Spot) : Walk Unit := fun _ s => ⟨[], .ok ((), f s)⟩

def lookup (place : Nat) : Walk Lexeme := fun ls s =>
  ⟨[], match ls[place]? with
    | some l => .ok (l, s)
    | none => .error .outside⟩

def read (place : Nat) : Walk Lexeme := do
  note (.read place)
  lookup place

/-! ## The cursor -/

def current : Walk Lexeme := fun ls s => read s.place ls s

/-- The lexeme after the current one, or the last one. -/
def peek : Walk Lexeme := fun ls s => read (min (s.place + 1) (ls.length - 1)) ls s

end Walk

namespace Spot

def next (s : Spot) : Spot := { s with place := s.place + 1 }

def deeper (s : Spot) : Spot := { s with depth := s.depth + 1 }

def shallower (s : Spot) : Spot := { s with depth := s.depth - 1 }

end Spot

namespace Walk

variable {α : Type}

/-- Moves behind the current lexeme, unless that is the end mark. -/
def advance : Walk Lexeme := do
  let l ← current
  if l.kind ≠ .eof then do
    move .next
    note .advance
  return l

def take (kind : Lexeme.Kind) (text : String) : Walk Bool := do
  let l ← current
  if l.kind = kind ∧ l.text = text then do
    let _ ← advance
    return true
  else return false

def expect (text : String) (kind : Lexeme.Kind) (problem : Problem) : Walk Lexeme := do
  let l ← current
  if l.kind = kind then advance else ofExcept (problemAt text problem l)

/-- Raises the count of open parentheses and negations, at the lexeme that opens one. -/
def enter (text : String) (l : Lexeme) : Walk Unit := do
  move .deeper
  note .enter
  let s ← spot
  if maxNesting < s.depth then ofExcept (problemAt text .tooDeep l)
  else return ()

def leave : Walk Unit := move .shallower

/-! ## Paths -/

def steps (text : String) : Nat → List Segment → Walk (List Segment)
  | 0, _ => exhausted
  | fuel + 1, before => do
    note (.turn .steps)
    if ← take .punct "." then do
      let field ← expect text .name .fieldMissing
      steps text fuel (before ++ [.field field.text])
    else if ← take .punct "[" then do
      let index ← expect text .number .indexMissing
      if index.text.toList.contains '.' then ofExcept (problemAt text .indexNotWhole index)
      else if ← take .punct "]" then do
        let i ← ofExcept (readWhole index.text)
        steps text fuel (before ++ [.index (Int.ofNat i)])
      else do
        let l ← current
        ofExcept (problemAt text .closingBracketMissing l)
    else return before

def path (text : String) (fuel : Nat) : Walk Path := do
  let root ← expect text .name .nameMissing
  let segments ← steps text fuel []
  return ⟨root.text, segments⟩

/-! ## Expressions -/

def operatorOf? (level : Nat) (l : Lexeme) : Option Operator :=
  if l.kind = .operator then (Operator.ofSymbol? l.text).filter fun op => op.level == level
  else none

def signs (l : Lexeme) : Walk Bool :=
  if l.kind = .operator ∧ l.text = "-" then do
    let numeral ← peek
    return numeral.kind == .number
  else return false

mutual

def binary (text : String) : Nat → Nat → Walk Expr
  | 0, _ => exhausted
  | fuel + 1, level => do
    note (.turn (.binary level))
    if level = Operator.levels then unary text fuel
    else do
      let left ← binary text fuel (level + 1)
      chain text fuel level left

def chain (text : String) : Nat → Nat → Expr → Walk Expr
  | 0, _, _ => exhausted
  | fuel + 1, level, left => do
    note (.turn (.chain level))
    let l ← current
    match operatorOf? level l with
    | none => return left
    | some op => do
      let _ ← advance
      let right ← binary text fuel (level + 1)
      chain text fuel level (.binary op left right)

def unary (text : String) : Nat → Walk Expr
  | 0 => exhausted
  | fuel + 1 => do
    note (.turn .unary)
    let l ← current
    if ← take .operator "!" then do
      enter text l
      let operand ← unary text fuel
      leave
      return .not operand
    else primary text fuel

def primary (text : String) : Nat → Walk Expr
  | 0 => exhausted
  | fuel + 1 => do
    note (.turn .primary)
    let l ← current
    if l.kind = .number then do
      let _ ← advance
      let n ← ofExcept (readNumber false l.text)
      return .literal n
    else if ← signs l then do
      let _ ← advance
      let numeral ← advance
      let n ← ofExcept (readNumber true numeral.text)
      return .literal n
    else if l.kind = .string then do
      let _ ← advance
      return .literal (.text (String.ofList (Text.literalText l.text.toList)))
    else if l.kind = .name then
      match Literal.ofWord? l.text with
      | some word => do
        let _ ← advance
        return .literal word
      | none => do
        let p ← path text fuel
        return .path p
    else if ← take .punct "(" then do
      enter text l
      let e ← binary text fuel 0
      if ← take .punct ")" then do
        leave
        return e
      else do
        let l ← current
        ofExcept (problemAt text .closingParenthesisMissing l)
    else if l.kind = .eof then ofExcept (problemAt text .unexpectedEnd l)
    else ofExcept (problemAt text (.unexpected l.text) l)

end

def expression (text : String) (fuel : Nat) : Walk Expr := do
  let l ← current
  if l.kind = .eof then ofExcept (problemAt text .empty l)
  else do
    let e ← binary text fuel 0
    let l ← current
    if l.kind = .eof then return e else ofExcept (problemAt text (.unexpected l.text) l)

end Walk
end Expr
end Quill
