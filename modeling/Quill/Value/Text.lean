import Quill.Fault
import Quill.Value

/-!
The two texts of a value: the one that appears in output and the quoted one that appears
in messages and inside the output of maps.

Both go down into lists and maps: `output` and `quoted` take it for granted that the stack holds out
for data as deep as they are given.
-/

namespace Quill

/-! ## The quoted form -/

def Date.quoted (d : Date) : String :=
  "datetime.date(" ++ Text.natText d.year ++ ", " ++ Text.natText d.month ++ ", " ++
    Text.natText d.day ++ ")"

/-- The quoted form of a stretch of time: days, seconds and microseconds, those that are
zero left out. -/
def quotedDuration (micros : Int) : String :=
  let days := Int.fdiv micros 86400000000
  let rest := micros - days * 86400000000
  let part (name : String) (n : Int) : List String :=
    if n = 0 then [] else [name ++ "=" ++ Text.intText n]
  let parts := part "days" days ++ part "seconds" (rest / 1000000) ++
    part "microseconds" (rest % 1000000)
  "datetime.timedelta(" ++ (if parts.isEmpty then "0" else ", ".intercalate parts) ++ ")"

def quotedOffset (offset : Int) : String :=
  if offset = 0 then "datetime.timezone.utc"
  else "datetime.timezone(" ++ quotedDuration offset ++ ")"

/-- The quoted form of a point of time; seconds and microseconds at the end are left out
when they are zero. -/
def DateTime.quoted (t : DateTime) : String :=
  let fine : List Nat :=
    if t.microsecond ≠ 0 then [t.second, t.microsecond]
    else if t.second ≠ 0 then [t.second]
    else []
  let fields := [t.date.year, t.date.month, t.date.day, t.hour, t.minute] ++ fine
  let zone := match t.offset with
    | none => []
    | some o => ["tzinfo=" ++ quotedOffset o]
  "datetime.datetime(" ++ ", ".intercalate (fields.map Text.natText ++ zone) ++ ")"

def Number.quoted (n : Number) : Except Fault String :=
  match n with
  | .decimal d => .ok ("Decimal('" ++ d.toText ++ "')")
  | _ =>
    match n.text? with
    | some s => .ok s
    | none => .error .numeralTooLong

namespace Value

mutual

def quoted : Value → Except Fault String
  | .null => .ok "None"
  | .bool b => .ok (if b then "True" else "False")
  | .number n => n.quoted
  | .text t => .ok (Text.quoted t.text)
  | .list items => do
    let parts ← quotedItems items
    return "[" ++ ", ".intercalate parts ++ "]"
  | .tuple items => do
    match ← quotedItems items with
    | [one] => return "(" ++ one ++ ",)"
    | parts => return "(" ++ ", ".intercalate parts ++ ")"
  | .map entries => do
    let parts ← quotedEntries entries
    return "\x7b" ++ ", ".intercalate parts ++ "\x7d"
  | .date d => .ok d.quoted
  | .dateTime t => .ok t.quoted

def quotedItems : List Value → Except Fault (List String)
  | [] => .ok []
  | v :: rest => do
    let first ← quoted v
    let others ← quotedItems rest
    return first :: others

def quotedEntries : List (String × Value) → Except Fault (List String)
  | [] => .ok []
  | (key, v) :: rest => do
    let first ← quoted v
    let others ← quotedEntries rest
    return (Text.quoted key ++ ": " ++ first) :: others

end

/-! ## The output form -/

mutual

/-- The text of a value in output.  Only a text can be safe: a list is joined with commas
into a plain one. -/
def output : Value → Except Fault Marked
  | .null => .ok (.plain "")
  | .bool b => .ok (.plain (if b then "true" else "false"))
  | .number n =>
    match n.outputText? with
    | some s => .ok (.plain s)
    | none => .error .numeralTooLong
  | .text t => .ok t
  | .list items => do
    let parts ← outputItems items
    return .plain (",".intercalate parts)
  | .tuple items => do
    let parts ← outputItems items
    return .plain (",".intercalate parts)
  | .map entries => do
    let parts ← quotedEntries entries
    return .plain ("\x7b" ++ ", ".intercalate parts ++ "\x7d")
  | .date d => .ok (.plain d.toText)
  | .dateTime t => .ok (.plain t.toText)

def outputItems : List Value → Except Fault (List String)
  | [] => .ok []
  | v :: rest => do
    let first ← output v
    let others ← outputItems rest
    return first.text :: others

end

def typeName : Value → String
  | .null => "NoneType"
  | .bool _ => "bool"
  | .number (.int _) => "int"
  | .number (.float _) => "float"
  | .number (.decimal _) => "Decimal"
  | .text t => if t.safe then "SafeString" else "str"
  | .list _ => "list"
  | .tuple _ => "tuple"
  | .map _ => "dict"
  | .date _ => "date"
  | .dateTime _ => "datetime"

/-- The name of the kind of a value after that of the module it belongs to; only decimals,
dates and points of time belong to one. -/
def qualifiedTypeName (v : Value) : String :=
  match v with
  | .number (.decimal _) => "decimal." ++ v.typeName
  | .date _ => "datetime." ++ v.typeName
  | .dateTime _ => "datetime." ++ v.typeName
  | v => v.typeName

end Value
end Quill
