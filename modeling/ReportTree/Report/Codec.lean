import ReportTree.Json.Reader
import ReportTree.Json.Writer
import ReportTree.Report.Basic
import ReportTree.Wire.Reader

/-!
# Reports as text

A report is written as the JSON text of its payload and read back from it.
-/

namespace ReportTree

/-- Why a text is not read as an object. -/
inductive ObjectError where
  /-- The text `t` is no JSON: a fault where `rest` is left of it. -/
  | malformed (t rest : Text) (fault : Json.Fault)
  /-- An integer in the text has more digits than are read. -/
  | longNumber (digits : Nat)
  /-- The text is JSON, but no object. -/
  | notAnObject

/-- Why a text is not read as a report. -/
inductive DecodeError where
  | object (e : ObjectError)
  | mismatch (e : Wire.Mismatch)

/-- The message of the error. -/
def ObjectError.message : ObjectError → Text
  | malformed t rest fault => "Invalid JSON: " ++ fault.message t rest
  | longNumber digits => (Numeral.Error.tooLong digits).message
  | notAnObject => "Expected a report object at the top level"

/-- The message of the error. -/
def DecodeError.message : DecodeError → Text
  | object e => e.message
  | mismatch e => e.message

/-- What was expected, in a word. -/
def DecodeError.expected : DecodeError → Option Text
  | object .notAnObject => some "object"
  | object _ => none
  | mismatch e => e.expected

/-- What was read instead. -/
def DecodeError.actual : DecodeError → Option Text
  | object _ => none
  | mismatch e => e.actual

/-- The fields of the object that a text holds. -/
def readObject (t : Text) : Except ObjectError Wire.Fields :=
  match Json.read t with
  | .error (.fault fault rest) => .error (.malformed t rest fault)
  | .error (.longNumber digits) => .error (.longNumber digits)
  | .ok (.object fields) => .ok fields
  | .ok _ => .error .notAnObject

namespace Document

/-- The text of a document. -/
def serialize (d : Document) (layout : Json.Layout) : Text := Json.write layout (Wire.payload d)

/-- The document that a text holds. -/
def deserialize (t : Text) : Except DecodeError Document :=
  match readObject t with
  | .error e => .error (.object e)
  | .ok fields =>
    match Wire.readDocument fields with
    | .error e => .error (.mismatch e)
    | .ok d => .ok d

end Document

namespace Report

/-- The text of a report. -/
def serialize (r : Report) (layout : Json.Layout) : Text := r.document.serialize layout

/-- The report that a text holds. -/
def deserialize (t : Text) : Except DecodeError Report :=
  (Document.deserialize t).map ofDocument

/-- The text of a report as a stream gets it, with a line break at the end. -/
def dump (r : Report) (layout : Json.Layout) : Text := r.serialize layout ++ "\n"

end Report

end ReportTree
