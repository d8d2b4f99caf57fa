import ReportTree.Text.LetterCase
import ReportTree.Text.Numeral
import ReportTree.Toml.Blank

/-!
# Quoted texts

A text stands between single or double quotation marks, on one line, or between three of them on
any number of lines. Between double marks a backslash begins an escape; on several lines it may also
swallow a line break with all the blanks around it.

Reading goes code point by code point; a stage says what the code points before stand for.
-/

namespace ReportTree.Toml.Quoted

/-- The marks around a text. -/
structure Marks where
  mark : CodePoint
  multiline : Bool

/-- Escapes are for double marks. -/
def Marks.escapes (q : Marks) : Bool := q.mark == '"'

/-- What has been begun. -/
inductive Stage where
  /-- The text itself; `marks` quotation marks have just been passed, which end it if they are at
  least three. -/
  | plain (marks : Nat)
  /-- An escape, whose backslash has been passed. -/
  | escape
  /-- The number of a code point, of which `held` has been passed and `missing` more code points are
  to come. -/
  | number (missing : Nat) (held : Text)
  /-- Blanks after a backslash, a line break among them if `broken`. -/
  | gap (broken : Bool)

/-- What the next code point does. -/
inductive Move where
  /-- It must not stand here. -/
  | stop
  /-- The text is read, up to `ending`; if `beyond`, the code point stands after it. -/
  | finish (ending : Text) (beyond : Bool)
  /-- Reading goes on, and `more` belongs to the text. -/
  | go (more : Text) (stage : Stage)

/-- The code points with escapes of their own. -/
def escapeTable : List (CodePoint × CodePoint) :=
  [('b', '\x08'), ('t', '\t'), ('n', '\n'), ('f', '\x0C'), ('r', '\r'), ('e', '\x1B'), ('"', '"'),
    ('\\', '\\')]

/-- The code points that begin the number of a code point, and how long the number is. -/
def numberTable : List (CodePoint × Nat) := [('x', 2), ('u', 4), ('U', 8)]

/-- The value of a hexadecimal digit; decimal digits may be of any script. -/
def anyHexValue? (c : CodePoint) : Option Nat := c.decimalValue?.or c.hexValue?

/-- The hexadecimal number that a text is, perhaps with the mark of the base in front. Low lines may
stand between its digits and after the mark. -/
def readHex? (t : Text) : Option Nat :=
  let t := ((Text.dropStart? "0x_" t).or (Text.dropStart? "0x" t)).getD t
  if (Text.splitOn '_' t).any List.isEmpty then none
  else
    let digits := t.filter fun c : CodePoint => c != '_'
    (digits.mapM anyHexValue?).map fun ds => ds.foldl (fun n d => 16 * n + d) 0

/-- The number of a code point. Like any numeral it may have blanks around it and a sign. -/
def codeNumber? (t : Text) : Option Nat :=
  let (negative, t) := Numeral.splitSign (Numeral.withoutPadding t)
  (readHex? t.smallLetters).filter fun n => !negative || n == 0

/-- The code point that an escape gives by its number. Half of a surrogate pair has no number of
four digits. -/
def numbered? (t : Text) : Option CodePoint :=
  (codeNumber? t).bind fun n =>
    if 0x110000 ≤ n ∨ (t.length = 4 ∧ 0xD800 ≤ n ∧ n < 0xE000) then none else some (.ofNat n)

/-- So many quotation marks are too many at the end of a text. -/
def tooManyMarks : Nat := 6

/-- The next code point inside a text, after so many quotation marks. -/
def Marks.plainMove (q : Marks) (marks : Nat) (c : CodePoint) : Move :=
  if c = q.mark then
    if !q.multiline then .finish [] false
    else if marks + 1 = tooManyMarks then .stop
    else .go [] (.plain (marks + 1))
  else if 3 ≤ marks then .finish (List.replicate (marks - 3) q.mark) true
  else
    let held := List.replicate marks q.mark
    if q.escapes && c == '\\' then .go held .escape
    else if isControl c && !(q.multiline && isGap c) then .stop
    else .go (held ++ [c]) (.plain 0)

/-- The next code point of an escape. -/
def Marks.escapeMove (q : Marks) (c : CodePoint) : Move :=
  match escapeTable.lookup c with
  | some d => .go [d] (.plain 0)
  | none =>
    match numberTable.lookup c with
    | some n => .go [] (.number n [])
    | none => if q.multiline && isGap c then .go [] (.gap (c == '\n')) else .stop

/-- The next code point of a number. -/
def numberMove (missing : Nat) (held : Text) (c : CodePoint) : Move :=
  let held := held ++ [c]
  if 1 < missing then .go [] (.number (missing - 1) held)
  else
    match numbered? held with
    | some d => .go [d] (.plain 0)
    | none => .stop

/-- What the next code point does at a stage. -/
def Marks.move (q : Marks) (c : CodePoint) : Stage → Move
  | .plain marks => q.plainMove marks c
  | .escape => q.escapeMove c
  | .number missing held => numberMove missing held c
  | .gap broken =>
    if isGap c then .go [] (.gap (broken || c == '\n'))
    else if broken then q.plainMove 0 c
    else .stop

/-- The rest of a text that is read from a stage on, and what follows it. -/
def Marks.readFrom (q : Marks) : Stage → Text → Option (Text × Text)
  | .plain marks, [] => if 3 ≤ marks then some (List.replicate (marks - 3) q.mark, []) else none
  | _, [] => none
  | stage, c :: t =>
    match q.move c stage with
    | .stop => none
    | .finish ending true => some (ending, c :: t)
    | .finish ending false => some (ending, t)
    | .go more stage => (q.readFrom stage t).map fun r => (more ++ r.1, r.2)

/-- Single and double quotation marks. -/
def isMark (c : CodePoint) : Bool := c == '"' || c == '\''

/-- The quoted text that a text begins with, and what follows it. A line break right after three
marks does not count. -/
def read? (multiline : Bool) : Text → Option (Text × Text)
  | [] => none
  | m :: t =>
    match Text.dropStart? [m, m] t with
    | none => Marks.readFrom ⟨m, false⟩ (.plain 0) t
    | some inside =>
      if multiline then
        Marks.readFrom ⟨m, true⟩ (.plain 0) ((Text.dropStart? "\n" inside).getD inside)
      else none

end ReportTree.Toml.Quoted
