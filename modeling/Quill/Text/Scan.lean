/-!
Leftmost scanning.  A recogniser looks at the text from some place on and tells how
long a match starting there would be.  `matchesFrom` walks the text from left to right,
takes the first match it meets, and goes on after its end, so that the matches never
overlap.

Recognisers of several parts are composed from `run` (a maximal run of one class of
characters).
-/

namespace Quill
namespace Text

/-- The half-open stretch of a text from `start` up to `stop`. -/
structure Span where
  start : Nat
  stop : Nat
  deriving DecidableEq, Repr

def slice (cs : List Char) (s : Span) : List Char := (cs.drop s.start).take (s.stop - s.start)

/-- The matches of a recogniser in a text that begins at `offset`, where the first
`skip` characters belong to the match before. -/
def matchesFrom (length? : List Char → Option Nat) : Nat → Nat → List Char → List Span
  | _, _, [] => []
  | skip + 1, offset, _ :: rest => matchesFrom length? skip (offset + 1) rest
  | 0, offset, c :: rest =>
    match length? (c :: rest) with
    | some (n + 1) => ⟨offset, offset + n + 1⟩ :: matchesFrom length? n (offset + 1) rest
    | _ => matchesFrom length? 0 (offset + 1) rest

def matchSpans (length? : List Char → Option Nat) (cs : List Char) : List Span :=
  matchesFrom length? 0 0 cs

def run (p : Char → Bool) (cs : List Char) : Nat := (cs.takeWhile p).length

def startsWith (start cs : List Char) : Bool := start.isPrefixOf cs

/-- Parts of a text between the places where `c` stands. -/
def splitAtChar (c : Char) : List Char → List (List Char)
  | [] => [[]]
  | d :: rest =>
    if d == c then [] :: splitAtChar c rest
    else
      match splitAtChar c rest with
      | [] => [[d]]
      | part :: parts => (d :: part) :: parts

end Text
end Quill
