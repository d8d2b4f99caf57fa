import ReportTree.Number.Shortest
import ReportTree.Toml.Moment

/-!
# Values of settings files

What a settings file can hold: texts, numbers, truth values, dates and times, lists and tables. A
table keeps its keys in order.
-/

namespace ReportTree.Toml

/-- A value. No file holds `null`; it stands for a value that is left out. -/
inductive Value where
  | null
  | bool (b : Bool)
  | integer (n : Int)
  | real (x : Binary64)
  | text (t : Text)
  | date (d : Date)
  | time (t : Time)
  | moment (d : Date) (t : Time) (zone : Option Zone)
  | list (items : List Value)
  | table (fields : List (Text × Value))
  deriving Inhabited

/-- A table: keys with their values. -/
abbrev Table := List (Text × Value)

/-- The value of a key. -/
def Table.get? (t : Table) (key : Text) : Option Value := (t.find? fun f => f.1 = key).map (·.2)

namespace Value

/-- What a message calls a value of this kind. -/
def kindName : Value → Text
  | null => "NoneType"
  | bool _ => "bool"
  | integer _ => "int"
  | real _ => "float"
  | text _ => "str"
  | date _ => "date"
  | time _ => "time"
  | moment .. => "datetime"
  | list _ => "list"
  | table _ => "dict"

/-- Floating point numbers are written with the fewest digits that identify them, positionally from
0.0001 to below 10 to the 16th, else with an exponent of two digits. -/
def realFormat : Decimal.Format where
  positionalFrom := -4
  positionalBelow := 16
  exponentWidth := 2

/-- The name of a truth value. -/
def boolText (b : Bool) : Text := if b then "True" else "False"

mutual

/-- A value in a message. -/
def shown : Value → Text
  | null => "None"
  | bool b => boolText b
  | integer n => Numeral.ofInt n
  | real x => realFormat.writeBinary x
  | text t => t.quoted
  | date d => d.shown
  | time t => t.shown
  | moment d t zone => d.shownAt t zone
  | list items => "[" ++ Text.join ", " (shownItems items) ++ "]"
  | table fields => "\x7b" ++ Text.join ", " (shownFields fields) ++ "\x7d"

/-- The items of a list, one text each. -/
def shownItems : List Value → List Text
  | [] => []
  | v :: vs => shown v :: shownItems vs

/-- The fields of a table, one text each. -/
def shownFields : List (Text × Value) → List Text
  | [] => []
  | (key, v) :: fields => (key.quoted ++ ": " ++ shown v) :: shownFields fields

end

mutual

/-- A number in the value has too many digits to be written. -/
def isLong : Value → Bool
  | integer n => Numeral.isLong n
  | list items => areLong items
  | table fields => fieldsAreLong fields
  | _ => false

/-- An item has too many digits to be written. -/
def areLong : List Value → Bool
  | [] => false
  | v :: vs => isLong v || areLong vs

/-- The value of a field has too many digits to be written. -/
def fieldsAreLong : List (Text × Value) → Bool
  | [] => false
  | (_, v) :: fields => isLong v || fieldsAreLong fields

end

/-- The table that a value is. -/
def table? : Value → Option Table
  | table fields => some fields
  | _ => none

end Value

end ReportTree.Toml
