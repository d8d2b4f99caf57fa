import ReportTree.Text.Basic

/-!
# JSON values

A document as a value. An object keeps its fields in the order of the document, repeated names
included, because the report format fixes the order of fields.
-/

namespace ReportTree

/-- A number as it is written: an integer, a decimal `digits * 10 ^ exponent` with its sign, or one
of the names that stand for no number. -/
inductive Json.Number where
  | integer (value : Int)
  | decimal (negative : Bool) (digits : Nat) (exponent : Int)
  | infinite (negative : Bool)
  | undefined
  deriving DecidableEq

/-- A JSON value. -/
inductive Json where
  | null
  | bool (b : Bool)
  | number (n : Json.Number)
  | text (t : Text)
  | array (items : List Json)
  | object (fields : List (Text × Json))
  deriving Inhabited

namespace Json

/-- The kind of a value. -/
inductive Kind where
  | null | boolean | number | string | array | object
  deriving DecidableEq

/-- The name of a kind, as messages use it. -/
def Kind.name : Kind → Text
  | null => "null"
  | boolean => "boolean"
  | number => "number"
  | string => "string"
  | array => "array"
  | object => "object"

/-- The kind of a value. -/
def kind : Json → Kind
  | .null => .null
  | .bool _ => .boolean
  | .number _ => .number
  | .text _ => .string
  | .array _ => .array
  | .object _ => .object

end Json

end ReportTree
