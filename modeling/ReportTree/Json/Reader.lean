import ReportTree.Json.Token

/-!
# Reading JSON

A document is read token by token. The state of the reader says what may come next and holds the
arrays and objects that are still open, so that reading is a fold over the tokens and every text
has exactly one outcome: a value, or the first fault and what is left of the text there.

* `Json.run_append`: tokens can be read in two parts.
-/

namespace ReportTree.Json

/-- What is wrong with a document. -/
inductive Fault where
  | byteOrderMark
  | expectedValue
  | expectedName
  | expectedColon
  | expectedComma
  | extraData
  | string (fault : StringFault)
  deriving DecidableEq

/-- Why a text is not read: a fault where `rest` is left of the text, or an integer with more
digits than are read. -/
inductive Error where
  | fault (fault : Fault) (rest : Text)
  | longNumber (digits : Nat)
  deriving DecidableEq

/-- An array or object that is still open, with its items so far, the last one first; `name` is
the name of the field whose value is being read. -/
inductive Frame where
  | array (items : List Json)
  | object (fields : List (Text × Json)) (name : Text)

/-- What may come next. -/
inductive State where
  | value (frames : List Frame)
  | firstItem (frames : List Frame)
  | afterItem (items : List Json) (frames : List Frame)
  | firstName (frames : List Frame)
  | fieldName (fields : List (Text × Json)) (frames : List Frame)
  | colon (fields : List (Text × Json)) (name : Text) (frames : List Frame)
  | afterField (fields : List (Text × Json)) (frames : List Frame)
  | done (v : Json)

/-- The state after a complete value. -/
def State.complete (v : Json) : List Frame → State
  | [] => .done v
  | .array items :: frames => .afterItem (v :: items) frames
  | .object fields name :: frames => .afterField ((name, v) :: fields) frames

/-- A token where a value is to come. -/
def stepValue (frames : List Frame) (x : Lexeme) : Except Error State :=
  match x.token with
  | .openObject => .ok (.firstName frames)
  | .openArray => .ok (.firstItem frames)
  | .text t => .ok (.complete (.text t) frames)
  | .null => .ok (.complete .null frames)
  | .bool b => .ok (.complete (.bool b) frames)
  | .number n => .ok (.complete (.number n) frames)
  | .longNumber digits => .error (.longNumber digits)
  | .badText fault rest => .error (.fault (.string fault) rest)
  | .closeObject | .closeArray | .colon | .comma | .junk =>
    .error (.fault .expectedValue x.start)

/-- A token where the name of a field is to come. -/
def stepName (fields : List (Text × Json)) (frames : List Frame) (x : Lexeme) :
    Except Error State :=
  match x.token with
  | .text t => .ok (.colon fields t frames)
  | .badText fault rest => .error (.fault (.string fault) rest)
  | _ => .error (.fault .expectedName x.start)

/-- One token. -/
def step (s : State) (x : Lexeme) : Except Error State :=
  match s, x.token with
  | .value frames, _ => stepValue frames x
  | .firstItem frames, .closeArray => .ok (.complete (.array []) frames)
  | .firstItem frames, _ => stepValue (.array [] :: frames) x
  | .afterItem items frames, .closeArray => .ok (.complete (.array items.reverse) frames)
  | .afterItem items frames, .comma => .ok (.value (.array items :: frames))
  | .afterItem _ _, _ => .error (.fault .expectedComma x.start)
  | .firstName frames, .closeObject => .ok (.complete (.object []) frames)
  | .firstName frames, _ => stepName [] frames x
  | .fieldName fields frames, _ => stepName fields frames x
  | .colon fields name frames, .colon => .ok (.value (.object fields name :: frames))
  | .colon _ _ _, _ => .error (.fault .expectedColon x.start)
  | .afterField fields frames, .closeObject => .ok (.complete (.object fields.reverse) frames)
  | .afterField fields frames, .comma => .ok (.fieldName fields frames)
  | .afterField _ _, _ => .error (.fault .expectedComma x.start)
  | .done _, _ => .error (.fault .extraData x.start)

/-- Reads tokens one after the other. -/
def run : State → List Lexeme → Except Error State
  | s, [] => .ok s
  | s, x :: xs =>
    match step s x with
    | .ok s' => run s' xs
    | .error e => .error e

theorem run_append (s : State) (xs ys : List Lexeme) :
    run s (xs ++ ys) = (run s xs).bind (run · ys) := by
  induction xs generalizing s with
  | nil => rfl
  | cons x xs ih =>
    simp only [List.cons_append, run]
    split
    · exact ih _
    · rfl

/-- The value that is read when the text is over. -/
def State.finish : State → Except Error Json
  | .value _ | .firstItem _ => .error (.fault .expectedValue [])
  | .afterItem _ _ | .afterField _ _ => .error (.fault .expectedComma [])
  | .firstName _ | .fieldName _ _ => .error (.fault .expectedName [])
  | .colon _ _ _ => .error (.fault .expectedColon [])
  | .done v => .ok v

/-- The value that tokens make up. -/
def ofTokens (xs : List Lexeme) : Except Error Json :=
  match run (.value []) xs with
  | .ok s => s.finish
  | .error e => .error e

/-- Reads a document. A byte order mark is refused. -/
def read (t : Text) : Except Error Json :=
  match t with
  | .scalar '\uFEFF' :: _ => .error (.fault .byteOrderMark t)
  | _ => ofTokens (tokens t)

/-! ## Messages -/

/-- What a fault is called. -/
def Fault.description : Fault → Text
  | byteOrderMark => "Unexpected UTF-8 BOM (decode using utf-8-sig)"
  | expectedValue => "Expecting value"
  | expectedName => "Expecting property name enclosed in double quotes"
  | expectedColon => "Expecting ':' delimiter"
  | expectedComma => "Expecting ',' delimiter"
  | extraData => "Extra data"
  | string .unterminated => "Unterminated string starting at"
  | string .controlCharacter => "Invalid control character at"
  | string .escape => "Invalid \\escape"
  | string .unicodeEscape => "Invalid \\uXXXX escape"

/-- The number of the line that ends a text, counted from 1. -/
def lineNumber (before : Text) : Nat := before.count (.scalar '\n') + 1

/-- The column that follows a text, counted from 1. -/
def columnNumber (before : Text) : Nat :=
  (before.reverse.takeWhile (· != .scalar '\n')).length + 1

/-- Where a text that was read up to `rest` was left: line, column and position. -/
def place (t rest : Text) : Text :=
  let before := t.take (t.length - rest.length)
  "line " ++ Numeral.ofNat (lineNumber before) ++ " column " ++
    Numeral.ofNat (columnNumber before) ++ " (char " ++ Numeral.ofNat before.length ++ ")"

/-- A fault of the text `t`. -/
def Fault.message (t rest : Text) (fault : Fault) : Text :=
  fault.description ++ ": " ++ place t rest

end ReportTree.Json
