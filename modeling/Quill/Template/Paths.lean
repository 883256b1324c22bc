import Quill.Text.Scan
import Quill.Text.Word
import Quill.Text.Blank

/-!
The paths that a template mentions, found without reading it as a template: those that
stand alone or before a bar in an output tag, and those that a loop goes through.  Paths
inside larger expressions are not found, and nothing is checked.
-/

namespace Quill
namespace Template

def isPathChar (c : Char) : Bool := Text.isWord c || c == '.' || c == '[' || c == ']'

def stripStart? (start cs : List Char) : Option (List Char) :=
  if Text.startsWith start cs then some (cs.drop start.length) else none

def skipBlanks? (cs : List Char) : Option (List Char) :=
  if Text.run Text.isBlank cs = 0 then none else some (cs.dropWhile Text.isBlank)

def skipWord? (cs : List Char) : Option (List Char) :=
  if Text.run Text.isWord cs = 0 then none else some (cs.dropWhile Text.isWord)

/-- The non-empty run of path characters that a text begins with, and what follows. -/
def leadingPath? (cs : List Char) : Option (List Char × List Char) :=
  let path := cs.takeWhile isPathChar
  if path.isEmpty then none else some (path, cs.dropWhile isPathChar)

def outputPath? (cs : List Char) : Option (List Char × List Char) :=
  (stripStart? ['{', '{'] cs).bind fun cs =>
  (leadingPath? (cs.dropWhile Text.isBlank)).bind fun (path, cs) =>
    let cs := cs.dropWhile Text.isBlank
    let cs :=
      match cs with
      | '|' :: rest => rest.dropWhile (· != '}')
      | _ => cs
    (stripStart? ['}', '}'] cs).map fun rest => (path, rest)

def loopPath? (cs : List Char) : Option (List Char × List Char) :=
  (stripStart? ['{', '%'] cs).bind fun cs =>
  (stripStart? ['f', 'o', 'r'] (cs.dropWhile Text.isBlank)).bind fun cs =>
  (skipBlanks? cs).bind fun cs =>
  (skipWord? cs).bind fun cs =>
  (skipBlanks? cs).bind fun cs =>
  (stripStart? ['i', 'n'] cs).bind fun cs =>
  (skipBlanks? cs).bind fun cs =>
  (leadingPath? cs).bind fun (path, cs) =>
  (stripStart? ['%', '}'] (cs.dropWhile Text.isBlank)).map fun rest => (path, rest)

def tagPath? (cs : List Char) : Option (List Char × List Char) :=
  match outputPath? cs with
  | some found => some found
  | none => loopPath? cs

def pathTagLength? (cs : List Char) : Option Nat :=
  (tagPath? cs).map fun (_, rest) => cs.length - rest.length

def literalWords : List String := ["true", "false", "null"]

/-- Whether a run of path characters is reported: it must not begin with a digit or be a
word that stands for a literal. -/
def isReported (path : List Char) : Bool :=
  !(path.head?).any Text.isDigitLike && !literalWords.contains (String.ofList path)

/-- The paths that a template mentions, in order and possibly more than once. -/
def mentionedPaths (source : String) : List String :=
  let cs := source.toList
  let found := (Text.matchSpans pathTagLength? cs).filterMap fun s =>
    (tagPath? (cs.drop s.start)).map Prod.fst
  (found.filter isReported).map String.ofList

def pathsOf (source : String) : List String :=
  (mentionedPaths source).eraseDups.mergeSort fun a b => a ≤ b

/-- Sorting and the removal of repetitions lose no path and add none. -/
theorem mem_pathsOf {source path : String} :
    path ∈ pathsOf source ↔ path ∈ mentionedPaths source := by
  simp [pathsOf]

end Template
end Quill
