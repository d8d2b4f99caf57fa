import ReportTree.Json.Basic
import ReportTree.Text.Numeral

/-!
# Writing JSON

A value is written on one line, or with every item of a non-empty array or object on a line of its
own. The text is printable ASCII: every other code point is escaped, supplementary characters as a
surrogate pair.
-/

namespace ReportTree.Json

/-- How the items of an array or object are set: on one line, or each on a line of its own, with
`unit` in front for every level of depth. -/
inductive Layout where
  | compact
  | block (unit : Text)

/-- `n` spaces per level; a negative number counts as none. -/
def Layout.spaces (n : Int) : Layout := .block (Text.repeated n.toNat [.scalar ' '])

/-- Why an indentation width is refused: it is no word. -/
inductive WidthError where
  | unbounded
  deriving DecidableEq

/-- The message about a width that is refused. -/
def WidthError.message : WidthError → Text
  | unbounded => "cannot fit 'int' into an index-sized integer"

/-- The number is a signed word of 64 bits: at least `-2 ^ 63`, and below `2 ^ 63`. -/
def IsWord (n : Int) : Prop := -0x8000000000000000 ≤ n ∧ n < 0x8000000000000000

instance (n : Int) : Decidable (IsWord n) := inferInstanceAs (Decidable (_ ∧ _))

/-- One line without an indentation width, else that many spaces per level. -/
def Layout.ofIndent : Option Int → Except WidthError Layout
  | none => .ok .compact
  | some n => if IsWord n then .ok (.spaces n) else .error .unbounded

theorem Layout.eq_of_ofIndent_eq_ok {indent : Option Int} {layout : Layout}
    (h : ofIndent indent = .ok layout) : layout = .compact ∨ ∃ n, layout = .spaces n := by
  cases indent with
  | none =>
    cases h
    exact .inl rfl
  | some n =>
    simp only [ofIndent] at h
    split at h
    · cases h
      exact .inr ⟨n, rfl⟩
    · cases h

/-- A width is refused only if it is no word. -/
theorem Layout.exists_of_ofIndent_eq_error {indent : Option Int} {e : WidthError}
    (h : ofIndent indent = .error e) : ∃ n, indent = some n ∧ ¬IsWord n := by
  cases indent with
  | none => cases h
  | some n =>
    refine ⟨n, rfl, fun hn => ?_⟩
    rw [ofIndent, if_pos hn] at h
    cases h

/-- The escape of one UTF-16 unit. -/
def escapeUnit (n : Nat) : Text := "\\u" ++ hexDigits 4 n

/-- One code point inside a string. -/
def escape (c : CodePoint) : Text :=
  if c = '"' then "\\\""
  else if c = '\\' then "\\\\"
  else if c = '\n' then "\\n"
  else if c = '\r' then "\\r"
  else if c = '\t' then "\\t"
  else if c = '\x0C' then "\\f"
  else if c = '\x08' then "\\b"
  else if 0x20 ≤ c.toNat ∧ c.toNat ≤ 0x7E then [c]
  else if c.toNat < 0x10000 then escapeUnit c.toNat
  else
    let n := c.toNat - 0x10000
    escapeUnit (0xD800 + n / 1024) ++ escapeUnit (0xDC00 + n % 1024)

/-- A text as a string literal. -/
def writeText (t : Text) : Text := .scalar '"' :: t.flatMap escape ++ [.scalar '"']

/-- A number; a decimal is written with its exponent. -/
def writeNumber : Number → Text
  | .integer n => Numeral.ofInt n
  | .decimal negative digits exponent =>
    (if negative then "-" else "" : String) ++ Numeral.ofNat digits ++ "e" ++ Numeral.ofInt exponent
  | .infinite negative => if negative then "-Infinity" else "Infinity"
  | .undefined => "NaN"

/-- What stands in front of an item at `depth`. -/
def Layout.lead (depth : Nat) : Layout → Text
  | compact => []
  | block unit => .scalar '\n' :: Text.repeated depth unit

/-- What stands between two items at `depth`. -/
def Layout.separator (depth : Nat) : Layout → Text
  | compact => ", "
  | block unit => ",\n" ++ Text.repeated depth unit

/-- Written items at `depth + 1`, between brackets. -/
def Layout.enclose (layout : Layout) (depth : Nat) (opening closing : CodePoint)
    (items : List Text) : Text :=
  if items.isEmpty then [opening, closing]
  else opening :: layout.lead (depth + 1) ++ Text.join (layout.separator (depth + 1)) items ++
    layout.lead depth ++ [closing]

mutual

/-- A value at `depth`. -/
def writeAt (layout : Layout) (depth : Nat) : Json → Text
  | .null => "null"
  | .bool b => if b then "true" else "false"
  | .number n => writeNumber n
  | .text t => writeText t
  | .array items => layout.enclose depth '[' ']' (writeItems layout (depth + 1) items)
  | .object fields => layout.enclose depth '\x7b' '\x7d' (writeFields layout (depth + 1) fields)

/-- The items of an array, one text each. -/
def writeItems (layout : Layout) (depth : Nat) : List Json → List Text
  | [] => []
  | v :: vs => writeAt layout depth v :: writeItems layout depth vs

/-- The fields of an object, one text each. -/
def writeFields (layout : Layout) (depth : Nat) : List (Text × Json) → List Text
  | [] => []
  | (name, v) :: fields =>
    (writeText name ++ ": " ++ writeAt layout depth v) :: writeFields layout depth fields

end

/-- A value as a document. -/
def write (layout : Layout) (v : Json) : Text := writeAt layout 0 v

end ReportTree.Json
