import Quill.Filter
import Quill.Text.Trim

/-!
The filter that writes amounts of money.
-/

namespace Quill
namespace Filter

def groupThousands (digits : List Char) : List Char :=
  match digits with
  | [] => []
  | d :: rest =>
    if rest.length % 3 = 0 ∧ rest ≠ [] then d :: ',' :: groupThousands rest
    else d :: groupThousands rest

def dollars (negative : Bool) (cents : Nat) : String :=
  let sign := if negative then "-" else ""
  sign ++ "$" ++ String.ofList (groupThousands (Nat.toDigits 10 (cents / 100))) ++ "." ++
    String.ofList (Text.paddedNat 2 (cents % 100))

/-- An amount rounded to cents, halves away from zero; none when that takes too many
digits. -/
def toCents? (d : Decimal) : Option (Bool × Nat) :=
  match d.quantize? .awayFromZero (-2) with
  | some (.finite s c _) => some (s && c != 0, c)
  | _ => none

def amount? (s : String) : Option Decimal := Decimal.ofText? (Text.trimmed s)

def usd? (s : String) : Option String :=
  (amount? s).bind fun d => (toCents? d).map fun (negative, cents) => dollars negative cents

/-- A number or a text that spells one is written in dollars; anything else stays as it
is. -/
def formatUsd : Filter := unary "format_usd" fun v =>
  let write (s : String) : Value :=
    match usd? s with
    | some written => .ofString written
    | none => v
  match v with
  | .number n =>
    match n.text? with
    | some s => .ok (write s)
    | none => .error .numeralTooLong
  | .text t => .ok (write t.text)
  | _ => .ok v

end Filter
end Quill
