import Quill.Text.Scan
import Quill.Text.Trim

/-!
Tokens: a template cut into its literal text and its tags.

A tag runs from an opening `{{` or `{%` to the first matching close that leaves at
least one character between; an opening without such a close is literal text.  The cut is
made in two ways: `Token.lex` drops the places of the tokens, `Token.locate` keeps them.
-/

namespace Quill

namespace Token

inductive Kind where
  | text
  | output
  | block
  deriving DecidableEq, Repr

def Kind.label : Kind → String
  | .text => "Text"
  | .output => "Var"
  | .block => "Block"

end Token

/-- A token: the literal text, or the trimmed inside of a tag; the line it begins on and,
when asked for, where in the template it stands. -/
structure Token where
  kind : Token.Kind
  contents : String
  line : Nat
  span : Option Text.Span
  deriving DecidableEq, Repr

namespace Token

def command (t : Token) : String := String.ofList (Text.firstWord t.contents.toList)

/-- The quoted form of a token shows its first twenty characters. -/
def quoted (t : Token) : String :=
  "<" ++ t.kind.label ++ " token: \"" ++
    String.ofList ((t.contents.toList.take 20).filter (· != '\n')) ++ "...\">"

/-! ## Tags -/

def closing? (c : Char) : List Char → Option Nat
  | [] => none
  | [_] => none
  | a :: b :: rest =>
    if a == c && b == '}' then some 2 else (closing? c (b :: rest)).map (· + 1)

def tagLength? : List Char → Option Nat
  | '{' :: '%' :: _ :: rest => (closing? '%' rest).map (· + 3)
  | '{' :: '{' :: _ :: rest => (closing? '}' rest).map (· + 3)
  | _ => none

def tagSpans (cs : List Char) : List Text.Span := Text.matchSpans tagLength? cs

/-! ## Making tokens -/

def inside (tag : List Char) : List Char := Text.trim ((tag.drop 2).take (tag.length - 4))

def ofTag (tag : List Char) (line : Nat) (span : Option Text.Span) : Token :=
  let kind := if Text.startsWith ['{', '{'] tag then .output else .block
  ⟨kind, String.ofList (inside tag), line, span⟩

def ofText (text : List Char) (line : Nat) (span : Option Text.Span) : Token :=
  ⟨.text, String.ofList text, line, span⟩

def lineBreaks (cs : List Char) : Nat := cs.count '\n'

/-- A text cut at spans that begin `offset` characters before it: literal pieces, which may
be empty, with the tags between them. -/
def cut (offset : Nat) (cs : List Char) : List Text.Span → List (Bool × List Char)
  | [] => [(false, cs)]
  | s :: rest =>
    let before := s.start - offset
    let after := s.stop - offset
    (false, cs.take before) :: (true, (cs.take after).drop before) ::
      cut s.stop (cs.drop after) rest

/-- The tokens of pieces that begin on a line; empty pieces give none. -/
def ofPieces (line : Nat) : List (Bool × List Char) → List Token
  | [] => []
  | (isTag, piece) :: rest =>
    let others := ofPieces (line + lineBreaks piece) rest
    if piece.isEmpty then others
    else if isTag then ofTag piece line none :: others
    else ofText piece line none :: others

def lex (source : String) : List Token :=
  let cs := source.toList
  ofPieces 1 (cut 0 cs (tagSpans cs))

/-- The tokens from `upto` on, where line `line` goes on there. -/
def locateFrom (cs : List Char) (upto line : Nat) : List Text.Span → List Token
  | [] =>
    let last := cs.drop upto
    if last.isEmpty then [] else [ofText last line (some ⟨upto, upto + last.length⟩)]
  | s :: rest =>
    let text := Text.slice cs ⟨upto, s.start⟩
    let tag := Text.slice cs s
    let tagLine := line + lineBreaks text
    let others := ofTag tag tagLine (some s) :: locateFrom cs s.stop (tagLine + lineBreaks tag) rest
    if upto < s.start then ofText text line (some ⟨upto, s.start⟩) :: others else others

/-- The tokens of a template with the places where they stand. -/
def locate (source : String) : List Token :=
  let cs := source.toList
  locateFrom cs 0 1 (tagSpans cs)

def tokens (located : Bool) (source : String) : List Token :=
  if located then locate source else lex source

end Token
end Quill
