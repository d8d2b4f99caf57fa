import ReportTree.Text.Basic

/-!
# Faults of settings files

A text may break the rules of writing; it is malformed then. Or it may be well written and define a
key or a table in two ways that do not go together.
-/

namespace ReportTree.Toml

/-- Two definitions that do not go together. -/
inductive Conflict where
  /-- A table holds a key twice. -/
  | repeatedKey (key : Text)
  /-- A header and dotted keys define the same table. -/
  | redefinedTable
  deriving DecidableEq

/-- The message about a conflict. -/
def Conflict.message : Conflict → Text
  | repeatedKey key => "Key \"" ++ key ++ "\" already exists."
  | redefinedTable => "Redefinition of an existing table"

/-- Why a text is no settings file. -/
inductive Fault where
  | malformed
  | conflict (c : Conflict)
  deriving DecidableEq

end ReportTree.Toml
