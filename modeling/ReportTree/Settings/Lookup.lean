import ReportTree.Level
import ReportTree.Toml.Value

/-!
# Looking up settings

A setting is looked up in a table by its key and checked for its kind. A key that is missing, or
whose value is null, sets nothing; a value of the wrong kind sets nothing either and is warned of.
-/

namespace ReportTree.Settings

open Toml (Table Value)

/-- What a value was expected to be. -/
inductive Wanted where
  | text | integer
  deriving DecidableEq

/-- Why a value is passed over. `place` says where it stands. -/
inductive Warning where
  | wrongKind (wanted : Wanted) (place : Text) (value : Value)
  | tooSmall (place : Text) (value minimum : Int)
  | unknownLevel (place : Text) (name : Text)

/-- The warning is about a value that cannot be written. -/
def Warning.isUnwritable : Warning → Bool
  | wrongKind _ _ value => value.isLong
  | tooSmall _ value _ => Numeral.isLong value
  | unknownLevel .. => false

/-- The name of a kind of value. -/
def Wanted.name : Wanted → Text
  | text => "string"
  | integer => "int"

/-- The names of all levels. -/
def levelNames : Text := Text.join ", " (Level.all.map Level.name)

/-- The text of a warning. -/
def Warning.message : Warning → Text
  | wrongKind wanted place value =>
    "Expected " ++ wanted.name ++ " in " ++ place ++ ", got " ++ value.kindName ++ ": " ++
      value.shown
  | tooSmall place value minimum =>
    "Value out of range in " ++ place ++ ": " ++ Numeral.ofInt value ++ " (minimum: " ++
      Numeral.ofInt minimum ++ ")"
  | unknownLevel place name =>
    "Invalid value for " ++ place ++ ": " ++ name.quoted ++ " (allowed: " ++ levelNames ++ ")"

/-- Where the value of a key stands. -/
def place (area key : Text) : Text := area ++ "." ++ key

/-- The value of a key, unless it is null. -/
def present? (t : Table) (key : Text) : Option Value :=
  match t.get? key with
  | some .null => none
  | v => v

/-- The text of a key. -/
def text (t : Table) (area key : Text) : Except Warning (Option Text) :=
  match present? t key with
  | none => .ok none
  | some (.text s) => .ok (some s)
  | some v => .error (.wrongKind .text (place area key) v)

/-- The number of a key, which is not below `minimum` if there is one. -/
def integer (t : Table) (area key : Text) (minimum : Option Int) :
    Except Warning (Option Int) :=
  match present? t key with
  | none => .ok none
  | some (.integer n) =>
    match minimum with
    | some least =>
      if n < least then .error (.tooSmall (place area key) n least) else .ok (some n)
    | none => .ok (some n)
  | some v => .error (.wrongKind .integer (place area key) v)

/-- The level of a key, by its name. -/
def level (t : Table) (area key : Text) : Except Warning (Option Level) :=
  match text t area key with
  | .error w => .error w
  | .ok none => .ok none
  | .ok (some name) =>
    match Level.ofUserText? name with
    | some l => .ok (some l)
    | none => .error (.unknownLevel (place area key) name)

/-- The table that keys lead to, one below the other. -/
def tableAt (t : Table) : List Text → Table
  | [] => t
  | key :: keys =>
    match t.get? key with
    | some (.table inner) => tableAt inner keys
    | _ => []

/-- The table with a name, in which points divide the keys. -/
def table (t : Table) (name : Text) : Table := tableAt t (name.splitOn '.')

end ReportTree.Settings
