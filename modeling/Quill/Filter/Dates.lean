import Quill.Filter
import Quill.Calendar.Iso
import Quill.Text.Trim

/-!
The filter that writes dates.
-/

namespace Quill
namespace Filter

/-- A number as a double; none when it is too large for one. -/
def toBinary64? : Number → Option Binary64
  | .int n => Binary64.ofInt? n
  | .float x => some x
  | .decimal (.finite s c e) => some (Binary64.ofDecimal s c e)
  | .decimal (.infinity s) => some (.inf s)
  | .decimal (.nan ..) => some .nan

/-- The date that a value stands for: a date or point of time, milliseconds since the start
of the epoch, or a text. -/
def dateOf? : Value → Option Date
  | .dateTime t => some t.date
  | .date d => some d
  | .number n => (toBinary64? n).bind Date.ofEpochMillis?
  | .text t => Date.read? (Text.trim t.text.toList)
  | _ => none

def monthFirst (d : Date) : String :=
  d.monthName ++ " " ++ Text.natText d.day ++ ", " ++ d.yearText

def dayFirst (d : Date) : String :=
  Text.natText d.day ++ " " ++ d.monthName ++ " " ++ d.yearText

def dateStyle (locale : String) : Date → String :=
  if locale = "en-GB" then dayFirst else monthFirst

/-- A value that does not count as true gives the empty text, and one that is no date its
own output. -/
def formatDate : Filter :=
  ⟨"format_date", [], 1, false, fun v arguments =>
    match v.truth? with
    | none => .error .signaling
    | some false => .ok (.ofString "")
    | some true =>
      match dateOf? v with
      | none => do return .text (← v.output)
      | some d => do
        let locale ← (arguments.headD (.ofString "en-US")).output
        return .ofString (dateStyle locale.text d)⟩

end Filter
end Quill
