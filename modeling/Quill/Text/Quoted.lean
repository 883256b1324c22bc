import Quill.Text.Printable

/-!
Text between quotes.

A text is shown in messages between single quotes, or between double quotes when it
holds a single quote and no double one; `quoted` writes that form.

A string literal of the expression language is read the other way: between its quotes a
backslash before the same quote stands for the quote and two backslashes for one.
`literalText` decodes it, and `literalText_literalOf` says that it undoes the encoding.
-/

namespace Quill
namespace Text

/-! ## Showing a text -/

/-- `n` in base sixteen, filled with zeros to at least `width` digits. -/
def hex (width n : Nat) : List Char :=
  let digits := Nat.toDigits 16 n
  List.replicate (width - digits.length) '0' ++ digits

def quoteFor (cs : List Char) : Char :=
  if cs.contains '\'' && !cs.contains '"' then '"' else '\''

def quotedChar (quote c : Char) : List Char :=
  if c == quote || c == '\\' then ['\\', c]
  else if c == '\t' then ['\\', 't']
  else if c == '\n' then ['\\', 'n']
  else if c == '\r' then ['\\', 'r']
  else if isPrintable c then [c]
  else if c.toNat < 0x100 then '\\' :: 'x' :: hex 2 c.toNat
  else if c.toNat < 0x10000 then '\\' :: 'u' :: hex 4 c.toNat
  else '\\' :: 'U' :: hex 8 c.toNat

def quotedChars (cs : List Char) : List Char :=
  let quote := quoteFor cs
  quote :: cs.flatMap (quotedChar quote) ++ [quote]

def quoted (s : String) : String := String.ofList (quotedChars s.toList)

/-! ## Reading a string literal -/

/-- The rest of a literal up to and including the quote that closes it, as a length.  A
backslash takes the character after it along. -/
def closingLength? (quote : Char) : List Char → Option Nat
  | [] => none
  | ['\\'] => none
  | '\\' :: _ :: rest => (closingLength? quote rest).map (· + 2)
  | c :: rest => if c == quote then some 1 else (closingLength? quote rest).map (· + 1)

/-- The length of the string literal that a text begins with. -/
def literalLength? : List Char → Option Nat
  | [] => none
  | c :: rest => if c == '"' || c == '\'' then (closingLength? c rest).map (· + 1) else none

/-- Replaces each backslash before `c` together with that `c` by `c` alone, from left to
right. -/
def unescapeOne (c : Char) : List Char → List Char
  | [] => []
  | a :: [] => [a]
  | a :: b :: rest =>
    if a == '\\' && b == c then c :: unescapeOne c rest else a :: unescapeOne c (b :: rest)

/-- The text that a literal, quotes included, stands for. -/
def literalText (lit : List Char) : List Char :=
  match lit with
  | [] => []
  | quote :: rest => unescapeOne '\\' (unescapeOne quote rest.dropLast)

def literalChar (quote c : Char) : List Char :=
  if c == quote || c == '\\' then ['\\', c] else [c]

def literalOf (quote : Char) (cs : List Char) : List Char :=
  quote :: cs.flatMap (literalChar quote) ++ [quote]

theorem unescapeOne_cons {c a : Char} {cs : List Char} (h : a = '\\' → cs.head? ≠ some c) :
    unescapeOne c (a :: cs) = a :: unescapeOne c cs := by
  cases cs with
  | nil => rfl
  | cons b rest => grind [unescapeOne]

/-- What stands inside a literal never begins with a bare quote. -/
theorem head?_flatMap_literalChar {quote : Char} (hq : quote ≠ '\\') (cs : List Char) :
    (cs.flatMap (literalChar quote)).head? ≠ some quote := by
  cases cs with
  | nil => simp
  | cons c rest => grind [literalChar]

/-- The first pass takes the backslash off every quote. -/
theorem unescapeOne_flatMap_literalChar {quote : Char} (hq : quote ≠ '\\') (cs : List Char) :
    unescapeOne quote (cs.flatMap (literalChar quote)) = cs.flatMap (literalChar '\\') := by
  induction cs with
  | nil => rfl
  | cons c rest ih =>
    have hr := head?_flatMap_literalChar hq rest
    by_cases hc : c = quote
    · subst hc
      simp [literalChar, unescapeOne, hq, ih]
    · by_cases hb : c = '\\'
      · subst hb
        have hs : unescapeOne quote ('\\' :: '\\' :: rest.flatMap (literalChar quote)) =
            '\\' :: '\\' :: unescapeOne quote (rest.flatMap (literalChar quote)) := by
          rw [unescapeOne_cons (by simpa using hc), unescapeOne_cons fun _ => hr]
        simpa [literalChar, ih] using hs
      · simp [literalChar, hc, hb, unescapeOne_cons, ih]

/-- The second pass halves the backslashes. -/
theorem unescapeOne_backslash (cs : List Char) :
    unescapeOne '\\' (cs.flatMap (literalChar '\\')) = cs := by
  induction cs with
  | nil => rfl
  | cons c rest ih =>
    by_cases hb : c = '\\'
    · subst hb
      simp [literalChar, unescapeOne, ih]
    · simp [literalChar, hb, unescapeOne_cons, ih]

theorem literalText_literalOf {quote : Char} (hq : quote ≠ '\\') (cs : List Char) :
    literalText (literalOf quote cs) = cs := by
  simp [literalText, literalOf, unescapeOne_flatMap_literalChar hq, unescapeOne_backslash]

end Text
end Quill
