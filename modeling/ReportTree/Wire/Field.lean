import ReportTree.Json.Basic
import ReportTree.Level
import ReportTree.Text.Numeral

/-!
# Reading fields in order

The fields of an object are read one after the other, each by its name and with the kind of its
value. What is left of the fields is handed on; the first mismatch ends the reading.

* `Wire.take_eq_ok_iff`: a field is read exactly when it is the next one.
-/

namespace ReportTree.Wire

/-- The fields of an object, or what is left of them. -/
abbrev Fields := List (Text × Json)

/-- What a value was expected to be. -/
inductive Wanted where
  | string | stringOrNull | boolean | array | object
  deriving DecidableEq

/-- Why an object is refused. -/
inductive Mismatch where
  /-- The field `name` was expected after the last field. -/
  | missing (name : Text)
  /-- The field `key` stands where `name` was expected. -/
  | otherName (name key : Text)
  /-- The value of the field `name` is of another kind. -/
  | otherKind (name : Text) (wanted : Wanted) (actual : Json.Kind)
  /-- An item in the array `name` is no string. -/
  | noString (name : Text) (actual : Json.Kind)
  /-- The field `key` stands after the last field that was expected. -/
  | extra (key : Text)
  | unknownLevel (text : Text)
  | unknownButtonKind (text : Text)
  deriving DecidableEq

/-! ## Messages -/

/-- The kind of value in a message. -/
def Wanted.name : Wanted → Text
  | string => "string"
  | stringOrNull => "string or null"
  | boolean => "boolean"
  | array => "array"
  | object => "object"

/-- The beginning of the message about a value of another kind. -/
def Wanted.complaint : Wanted → Text
  | string => "Expected a string for '"
  | stringOrNull => "Expected a string or null for '"
  | boolean => "Expected a boolean for '"
  | array => "Expected an array for '"
  | object => "Expected an object in '"

namespace Mismatch

/-- The message of a mismatch. -/
def message : Mismatch → Text
  | missing name => "Expected '" ++ name ++ "', but reached the end of the object"
  | otherName name key => "Expected '" ++ name ++ "', but read '" ++ key ++ "'"
  | otherKind name wanted actual => wanted.complaint ++ name ++ "', but read " ++ actual.name
  | noString name actual => "Expected strings in '" ++ name ++ "', but read " ++ actual.name
  | extra key => "Expected end of object, but read '" ++ key ++ "'"
  | unknownLevel t => "Expected a valid warning level, but got '" ++ t ++ "'"
  | unknownButtonKind t => "Expected a valid button type, but got '" ++ t ++ "'"

/-- What was expected, in a word. -/
def expected : Mismatch → Option Text
  | missing name => some name
  | otherName name _ => some name
  | otherKind _ wanted _ => some wanted.name
  | noString _ _ => some Wanted.string.name
  | extra _ => none
  | unknownLevel _ => some "warning level"
  | unknownButtonKind _ => some "button type"

/-- What was read instead. -/
def actual : Mismatch → Option Text
  | missing _ => none
  | otherName _ key => some key
  | otherKind _ _ k => some k.name
  | noString _ k => some k.name
  | extra key => some key
  | unknownLevel t => some t
  | unknownButtonKind t => some t

end Mismatch

/-! ## Fields -/

/-- Takes the next field, which must be called `name`. -/
def take (name : Text) : Fields → Except Mismatch (Json × Fields)
  | [] => .error (.missing name)
  | (key, v) :: fields => if key = name then .ok (v, fields) else .error (.otherName name key)

/-- Checks that no field is left. -/
def finish : Fields → Except Mismatch Unit
  | [] => .ok ()
  | (key, _) :: _ => .error (.extra key)

theorem take_eq_ok_iff {name : Text} {fields rest : Fields} {v : Json} :
    take name fields = .ok (v, rest) ↔ fields = (name, v) :: rest := by
  cases fields with
  | nil => simp [take]
  | cons f fields =>
    obtain ⟨key, w⟩ := f
    simp only [take]
    split <;> simp_all

theorem finish_eq_ok_iff {fields : Fields} : finish fields = .ok () ↔ fields = [] := by
  cases fields <;> simp [finish]

/-! ## Values -/

/-- The value of the field `name` as a string. -/
def asString (name : Text) : Json → Except Mismatch Text
  | .text t => .ok t
  | v => .error (.otherKind name .string v.kind)

/-- The value of the field `name` as a string, or nothing for null. -/
def asStringOrNull (name : Text) : Json → Except Mismatch (Option Text)
  | .text t => .ok (some t)
  | .null => .ok none
  | v => .error (.otherKind name .stringOrNull v.kind)

/-- The value of the field `name` as a boolean. -/
def asBool (name : Text) : Json → Except Mismatch Bool
  | .bool b => .ok b
  | v => .error (.otherKind name .boolean v.kind)

/-- The value of the field `name`, or an item in it, as an object. -/
def asObject (name : Text) : Json → Except Mismatch Fields
  | .object fields => .ok fields
  | v => .error (.otherKind name .object v.kind)

/-- The value of the field `name` as an array. -/
def asArray (name : Text) : Json → Except Mismatch (List Json)
  | .array items => .ok items
  | v => .error (.otherKind name .array v.kind)

/-- An item in the array `name` as a string. -/
def itemAsString (name : Text) : Json → Except Mismatch Text
  | .text t => .ok t
  | v => .error (.noString name v.kind)

/-- The value of the field `name` as an array of strings. -/
def asStrings (name : Text) (v : Json) : Except Mismatch (List Text) := do
  (← asArray name v).mapM (itemAsString name)

/-- The value of the field `name` as an array of objects. -/
def asObjects (name : Text) (v : Json) : Except Mismatch (List Fields) := do
  (← asArray name v).mapM (asObject name)

/-- Takes the next field and reads its value. -/
def takeAs {α : Type} (as : Text → Json → Except Mismatch α) (name : Text) (fields : Fields) :
    Except Mismatch (α × Fields) := do
  let (v, rest) ← take name fields
  return (← as name v, rest)

/-- A level as reports write it. -/
def readLevel (t : Text) : Except Mismatch Level :=
  match Level.read? t with
  | some l => .ok l
  | none => .error (.unknownLevel t)

/-! ## Cursors -/

/-- An object whose fields are being read: the names of those read so far and what is left. -/
structure Cursor where
  passed : List Text := []
  left : Fields

namespace Cursor

/-- The names of all fields. -/
def names (c : Cursor) : List Text := c.passed ++ c.left.map (·.1)

/-- The object in one line, for messages. -/
def describe (c : Cursor) : Text :=
  "WireObject(keys=[" ++ Text.join ", " (c.names.map Text.quoted) ++ "], pos=" ++
    Numeral.ofNat c.passed.length ++ ")"

/-- Takes the next field, which must be called `name`. -/
def take (c : Cursor) (name : Text) : Except Mismatch (Json × Cursor) := do
  let (v, rest) ← Wire.take name c.left
  return (v, { passed := c.passed ++ [name], left := rest })

end Cursor

end ReportTree.Wire
