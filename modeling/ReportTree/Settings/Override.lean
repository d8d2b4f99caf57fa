import ReportTree.Settings.Basic

/-!
# Overrides

Settings that are given for one run of a command and win over every layer. They may be given as
values of any kind, which are turned into what the setting wants.
-/

namespace ReportTree.Settings

open Toml (Value)

/-- Why a value does not stand for a number. -/
inductive NumberError where
  | numeral (e : Numeral.Error)
  | infinite
  | undefined
  | otherKind (kind : Text)
  deriving DecidableEq

/-- The message of the error. -/
def NumberError.message : NumberError → Text
  | numeral e => e.message
  | infinite => "cannot convert float infinity to integer"
  | undefined => "cannot convert float NaN to integer"
  | otherKind kind =>
    "int() argument must be a string, a bytes-like object or a real number, not '" ++ kind ++ "'"

/-- The number that a value stands for: a truth value is 1 or 0, a floating point number loses its
fraction, a text is read. -/
def toInteger : Value → Except NumberError Int
  | .integer n => .ok n
  | .bool b => .ok (if b then 1 else 0)
  | .text t => (Numeral.read t).mapError .numeral
  | .real (.finite negative mantissa exponent) =>
    .ok (Numeral.signed negative (Binary64.wholePart mantissa exponent))
  | .real (.infinite _) => .error .infinite
  | .real .undefined => .error .undefined
  | v => .error (.otherKind v.kindName)

/-- The text that a value stands for: a text is itself. -/
def toText : Value → Text
  | .text t => t
  | v => v.shown

/-- Settings that are given for one run. -/
structure Overrides where
  indent : Option Value := none
  folderIcon : Option Value := none
  fileIcon : Option Value := none
  failOn : Option Level := none

/-- The settings of one run as a layer without a source. -/
def Overrides.layer (o : Overrides) : Except NumberError Layer := do
  return {
    indent := ← o.indent.mapM toInteger
    folderIcon := o.folderIcon.map toText
    fileIcon := o.fileIcon.map toText
    failOn := o.failOn }

/-- The layer with some of its settings replaced. -/
def Layer.override (l : Layer) (o : Overrides) : Except NumberError Layer := do
  return (← o.layer).onto l

end ReportTree.Settings
