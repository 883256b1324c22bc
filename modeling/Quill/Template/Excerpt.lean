import Quill.Template.Token
import Quill.Text.Html

/-!
Excerpts: the lines of a template around a token, made safe for display, with the token's
own line split at it.
-/

namespace Quill

structure Excerpt where
  message : String
  /-- Numbered lines around the token. -/
  lines : List (Nat × String)
  before : String
  during : String
  after : String
  top : Nat
  bottom : Nat
  total : Nat
  line : Nat
  name : String
  start : Nat
  stop : Nat
  deriving DecidableEq, Repr

namespace Excerpt

/-- How many lines are shown on either side. -/
def margin : Nat := 10

/-- The places behind the line breaks of a text that begins at `offset`. -/
def breaksFrom (offset : Nat) : List Char → List Nat
  | [] => []
  | c :: rest =>
    if c == '\n' then (offset + 1) :: breaksFrom (offset + 1) rest else breaksFrom (offset + 1) rest

/-- Where each line ends.  An empty line comes first, so that lines are counted from one,
and the last one ends behind the text. -/
def lineEnds (cs : List Char) : List Nat := 0 :: breaksFrom 0 cs ++ [cs.length + 1]

def lineSpans (cs : List Char) : List Text.Span :=
  List.zipWith Text.Span.mk (0 :: lineEnds cs) (lineEnds cs)

def display (cs : List Char) (start stop : Nat) : String :=
  Html.escape (String.ofList (Text.slice cs ⟨start, stop⟩))

/-- The excerpt of a template at a span; a span over several lines lies on none of them. -/
def make (message name source : String) (span : Text.Span) : Excerpt :=
  let cs := source.toList
  let spans := lineSpans cs
  let numbered := spans.zipIdx
  let home := (numbered.filter fun (l, _) => l.start ≤ span.start && span.stop ≤ l.stop).getLast?
  let (line, before, after) :=
    match home with
    | none => (0, "", "")
    | some (l, n) => (n, display cs l.start span.start, display cs span.stop l.stop)
  let during := if home.isSome then display cs span.start span.stop else ""
  let total := spans.length
  let top := max 1 (line - margin)
  let bottom := min total (line + 1 + margin)
  let shown := numbered.map fun (l, n) => (n, display cs l.start l.stop)
  { message, lines := (shown.take bottom).drop top, before, during, after, top, bottom, total,
    line, name, start := span.start, stop := span.stop }

end Excerpt
end Quill
