import ReportTree.Toml.Reader

/-!
# Statements

A settings file is a sequence of statements: values of keys, and headers after which keys belong to
another table. They are read up to the first fault.
-/

namespace ReportTree.Toml

/-- One statement. An `array` header begins another element of an array of tables. -/
inductive Statement where
  | entry (key : List Text) (value : Value)
  | header (array : Bool) (name : List Text)

/-- The statements of a text up to its first fault. -/
structure Script where
  statements : List Statement
  fault : Option Fault

namespace Script

/-- A text with a fault at its beginning. -/
def stopped (f : Fault) : Script := ⟨[], some f⟩

/-- A script with a statement in front. -/
def after (s : Statement) (rest : Script) : Script :=
  { rest with statements := s :: rest.statements }

end Script

/-- The header that a text begins with, after its first bracket, and the rest of its line if its
brackets are in order. -/
def readHeader? (t : Text) : Option (Statement × Option Text) :=
  let (array, t) :=
    match t with
    | .scalar '[' :: rest => (true, rest)
    | _ => (false, t)
  (Key.read? t).map fun r =>
    (.header array r.1, Text.dropStart? (if array then "]]" else "]") r.2)

/-- The statements of a text, of at most `most` lines. -/
def readStatements : (most : Nat) → Text → Script
  | 0, _ => .stopped .malformed
  | most + 1, t =>
    match t.dropWhile isGap with
    | [] => ⟨[], none⟩
    | .scalar '#' :: t =>
      match nextLine? true t with
      | none => .stopped .malformed
      | some t => readStatements most t
    | .scalar '[' :: t =>
      match readHeader? t with
      | none => .stopped .malformed
      | some (s, rest) =>
        match rest.bind (nextLine? false) with
        | none => .after s (.stopped .malformed)
        | some t => .after s (readStatements most t)
    | t =>
      match readEntry t with
      | .error f => .stopped f
      | .ok (key, v, rest) =>
        match nextLine? false rest with
        | none => .stopped .malformed
        | some t => .after (.entry key v) (readStatements most t)

/-- The statements of a text. -/
def Script.read (t : Text) : Script := readStatements (t.length + 1) t

end ReportTree.Toml
