import ReportTree.Text.Blank
import ReportTree.Toml.Joining
import ReportTree.Toml.Key
import ReportTree.Toml.Number
import ReportTree.Toml.Timestamp

/-!
# Reading values

The value that a text begins with, and what follows it. Texts, lists and inline tables end where
their marks say so; every other value is a word, up to the next blank, comma, bracket or comment.

Lists and inline tables may run over several lines and end with a comma. A list also ends where an
item is broken off by the bracket that closes the list; then it goes without that item.
-/

namespace ReportTree.Toml

/-- Why a value is not read. -/
inductive Obstacle where
  | fault (f : Fault)
  /-- What stands in front of `rest` is in order, and something else was to follow it. -/
  | broken (rest : Text)

/-- The text is not well written. -/
def Obstacle.malformed : Obstacle := .fault .malformed

/-- The fault of a text in which this cannot be passed. -/
def Obstacle.toFault : Obstacle → Fault
  | fault f => f
  | broken _ => .malformed

/-- Where a word ends. -/
def endsWord (c : CodePoint) : Bool :=
  isGap c || c == '#' || c == ',' || c == ']' || c == '\x7d'

/-- The word that a text begins with, and what follows it. -/
def splitWord (t : Text) : Text × Text := (t.takeWhile (!endsWord ·), t.dropWhile (!endsWord ·))

/-- What may be the time after a day: the rest of a line up to its comment or closing mark, spaces
included. -/
def splitTime (t : Text) : Text × Text :=
  let inTime (c : CodePoint) : Bool := c == ' ' || !endsWord c
  (Text.trimEnd (t.takeWhile inTime), t.dropWhile inTime)

/-- A day that a word is, with the time that may follow it. -/
def readDay (word : Text) (d : Date) (rest : Text) : Except Fault (Value × Text) :=
  let (time, rest) := splitTime rest
  if time.isEmpty then .ok (.date d, rest)
  else
    match readMoment? (word ++ time) with
    | some v => .ok (v, rest)
    | none => .error .malformed

/-- A number, day or time. -/
def readWord (t : Text) : Except Fault (Value × Text) :=
  let (word, rest) := splitWord t
  match readDate? word with
  | some d => readDay word d rest
  | none =>
    match ((readTime? word).map Value.time).or (readMoment? word) |>.or (readNumber? word) with
    | some v => .ok (v, rest)
    | none => .error .malformed

/-- The words that begin like no number and are values. -/
def named : List (Text × Value) := [("true", .bool true), ("false", .bool false)]

/-- The numbers that are words without digits or sign. -/
def namedNumbers : List Text := ["inf", "nan"]

/-- A value with no other value inside it. -/
def readSimple (t : Text) : Except Obstacle (Value × Text) :=
  match t with
  | [] => .error (.broken t)
  | c :: _ =>
    if Quoted.isMark c then
      match Quoted.read? true t with
      | some (s, rest) => .ok (.text s, rest)
      | none => .error .malformed
    else
      match named.findSome? fun n => (Text.dropStart? n.1 t).map (n.2, ·) with
      | some r => .ok r
      | none =>
        if c = '+' ∨ c = '-' ∨ c.asciiDigit?.isSome ∨ namedNumbers.contains (splitWord t).1 then
          (readWord t).mapError .fault
        else .error (.broken t)

/-- What follows the sign between a key and its value: an equals sign among spaces. -/
def afterEquals (t : Text) : Except Obstacle Text :=
  match afterSpaces t with
  | .scalar '=' :: rest => .ok (afterSpaces rest)
  | rest => .error (.broken rest)

/-- The key that a text begins with, and the text of its value. -/
def readName (t : Text) : Except Obstacle (List Text × Text) :=
  match Key.read? t with
  | none => .error .malformed
  | some (key, rest) => (afterEquals rest).map fun t => (key, t)

/-- What follows the blanks, line breaks and comments inside a list or an inline table. -/
def afterGap (t : Text) : Except Obstacle Text :=
  match afterGap? false t with
  | none => .error .malformed
  | some t => .ok t

/-- Lists and inline tables lie in each other to this depth. -/
def mostNested : Nat := 100

mutual

/-- The value that a text begins with, and what follows it. It may hold values `levels` deep; `most`
bounds the steps. -/
def readValueWithin : (most levels : Nat) → Text → Except Obstacle (Value × Text)
  | 0, _, _ => .error .malformed
  | most + 1, levels, t =>
    match t, levels with
    | .scalar '[' :: t, levels + 1 =>
      (readItems most levels false t).map fun r => (.list r.1, r.2)
    | .scalar '\x7b' :: t, levels + 1 => do
      let (entries, rest) ← readFields most levels [] t
      let table ← entries.toTable.mapError .fault
      return (.table table, rest)
    | .scalar '[' :: _, 0 => .error .malformed
    | .scalar '\x7b' :: _, 0 => .error .malformed
    | t, _ => readSimple t

/-- The items of a list that are left, and what follows the list; `separate` says that a comma must
stand in front of the next item. -/
def readItems : (most levels : Nat) → (separate : Bool) → Text →
    Except Obstacle (List Value × Text)
  | 0, _, _, _ => .error .malformed
  | most + 1, levels, separate, t => do
    match ← afterGap t with
    | .scalar ']' :: rest => return ([], rest)
    | t =>
      if separate then
        match t with
        | .scalar ',' :: rest => readItems most levels false rest
        | _ => throw (.broken t)
      else
        match readValueWithin most levels t with
        | .ok (v, rest) =>
          let (vs, rest) ← readItems most levels true rest
          return (v :: vs, rest)
        | .error (.broken (.scalar ']' :: rest)) => return ([], rest)
        | .error o => throw o

/-- The fields of an inline table that are left, with those in `entries`, and what follows the
table. -/
def readFields : (most levels : Nat) → Entries → Text → Except Obstacle (Entries × Text)
  | 0, _, _, _ => .error .malformed
  | most + 1, levels, entries, t => do
    match ← afterGap t with
    | .scalar '\x7d' :: rest => return (entries, rest)
    | .scalar ',' :: rest => throw (.broken (.scalar ',' :: rest))
    | t =>
      let (key, t) ← readName t
      let (v, rest) ← readValueWithin most levels t
      let entries ←
        match Entries.entry? key v with
        | none => throw .malformed
        | some e => (entries.add true e).mapError .fault
      match ← afterGap rest with
      | .scalar ',' :: rest => readFields most levels entries rest
      | .scalar '\x7d' :: rest => return (entries, rest)
      | rest => throw (.broken rest)

end

/-- The value that a text begins with, and what follows it. Two steps are enough for each code
point. -/
def readValue (t : Text) : Except Obstacle (Value × Text) :=
  readValueWithin (2 * t.length + 2) mostNested t

/-- The value of a key, with the key, and what follows it. -/
def readEntry (t : Text) : Except Fault (List Text × Value × Text) :=
  Except.mapError Obstacle.toFault do
    let (key, t) ← readName t
    let (v, rest) ← readValue t
    return (key, v, rest)

end ReportTree.Toml
