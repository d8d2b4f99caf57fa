import ReportTree.Text.Digit
import ReportTree.Toml.Value

/-!
# Timestamps

Days are written `1979-05-27`, times of a day `07:32` or `07:32:00` with a fraction of any length,
of which six digits count, and both together with `T` or a space between them and perhaps a zone:
`Z` or an offset such as `+07:00`. The digits are ASCII, but those of a year may be of any script.
-/

namespace ReportTree.Toml

/-- The number of exactly `n` digits that a text begins with, and the rest. -/
def takeDigits? (digit? : CodePoint → Option Nat) : (n value : Nat) → Text → Option (Nat × Text)
  | 0, value, t => some (value, t)
  | n + 1, value, c :: t =>
    (digit? c).bind fun d => takeDigits? digit? n (10 * value + d) t
  | _ + 1, _, [] => none

/-- The year that a text begins with, and the rest. -/
def takeYear? (t : Text) : Option (Nat × Text) := takeDigits? CodePoint.decimalValue? 4 0 t

/-- The number of two digits that a text begins with, and the rest. -/
def takePair? (t : Text) : Option (Nat × Text) := takeDigits? CodePoint.asciiDigit? 2 0 t

/-- The rest of a text after one of the code points `marks`. -/
def afterOneOf? (marks : Text) : Text → Option Text
  | c :: t => if marks.contains c then some t else none
  | [] => none

/-- The day that a text begins with. -/
def takeDate? (t : Text) : Option (Date × Text) := do
  let (year, t) ← takeYear? t
  let (month, t) ← takePair? (← afterOneOf? "-" t)
  let (day, t) ← takePair? (← afterOneOf? "-" t)
  let d : Date := ⟨year, month, day⟩
  if d.isValid then some (d, t) else none

/-- Fractions of a second are kept to so many digits. -/
def fractionDigits : Nat := 6

/-- The microseconds after a point that a text may begin with. -/
def takeFraction? : Text → Option (Nat × Text)
  | .scalar '.' :: t =>
    let digits := (t.takeWhile fun c => c.asciiDigit?.isSome).filterMap CodePoint.asciiDigit?
    let kept := (digits ++ List.replicate fractionDigits 0).take fractionDigits
    if digits.isEmpty then none
    else some (kept.foldl (fun n d => 10 * n + d) 0, t.drop digits.length)
  | t => some (0, t)

/-- The seconds and microseconds that may follow hours and minutes, and the rest. -/
def takeSeconds? (t : Text) : Option (Nat × Nat × Text) :=
  match afterOneOf? ":" t with
  | none => some (0, 0, t)
  | some t => do
    let (second, t) ← takePair? t
    let (microsecond, t) ← takeFraction? t
    return (second, microsecond, t)

/-- The time of a day that a text begins with. -/
def takeTime? (t : Text) : Option (Time × Text) := do
  let (hour, t) ← takePair? t
  let (minute, t) ← takePair? (← afterOneOf? ":" t)
  let (second, microsecond, t) ← takeSeconds? t
  let time : Time := ⟨hour, minute, second, microsecond⟩
  if time.isValid then some (time, t) else none

/-- The zone that is all of a text; there may be none. -/
def readZone? : Text → Option (Option Zone)
  | [] => some none
  | c :: t => do
    if (c = 'Z' ∨ c = 'z') ∧ t.isEmpty then return some .universal
    let _ ← afterOneOf? Zone.marks [c]
    let (hours, t) ← takePair? t
    let (minutes, t) ← takePair? (← afterOneOf? ":" t)
    if hours < 24 ∧ minutes < 60 ∧ t.isEmpty then
      return some (.offset c hours minutes)
    none

/-- The day that a word is. -/
def readDate? (word : Text) : Option Date := do
  let (d, rest) ← takeDate? word
  if rest.isEmpty then some d else none

/-- The time of a day that a word is. -/
def readTime? (word : Text) : Option Time := do
  let (t, rest) ← takeTime? word
  if rest.isEmpty then some t else none

/-- The day and time that a text is, perhaps with a zone. -/
def readMoment? (t : Text) : Option Value := do
  let (d, rest) ← takeDate? t
  let (time, rest) ← takeTime? (← afterOneOf? "Tt " rest)
  let zone ← readZone? rest
  return .moment d time zone

end ReportTree.Toml
