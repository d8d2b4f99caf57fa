import ReportTree.Level
import ReportTree.Report.Message
import ReportTree.Text.Numeral

/-!
# Choices

The sets of named values that a user can choose from. A value is found by its name or by the text
that stands for it, with or without regard to letter case.
-/

namespace ReportTree

/-- One value of a set: its name, in capitals, and the text that stands for it. -/
structure Choice (α : Type) where
  name : Text
  text : Text
  value : α

/-- A set of values to choose from. -/
structure Choices (α : Type) where
  title : Text
  items : List (Choice α)

namespace Choices

variable {α : Type}

/-- The texts to choose from. -/
def texts (c : Choices α) : List Text := c.items.map (·.text)

/-- The value with this name. -/
def byName? (c : Choices α) (name : Text) (ignoreCase : Bool) : Option α :=
  let key := if ignoreCase then name.capitals else name
  (c.items.find? fun i => i.name = key).map (·.value)

/-- The value that a text stands for. -/
def byText? (c : Choices α) (t : Text) (ignoreCase : Bool) : Option α :=
  let form (t : Text) : Text := if ignoreCase then t.smallLetters else t
  (c.items.find? fun i => form i.text = form t).map (·.value)

/-- The texts to choose from that begin like `start`, whatever its letter case. -/
def completions (texts : List Text) (start : Text) : List Text :=
  texts.filter fun t => start.smallLetters.isPrefixOf t.smallLetters

/-- The texts to choose from, in a message. -/
def listing (texts : List Text) : Text := Text.join ", " texts

/-- Reads a value that a user gave by its text. -/
def read (c : Choices α) (t : Text) : Except Text α :=
  match c.byText? t true with
  | some a => .ok a
  | none => .error ("Invalid value '" ++ t ++ "'. Must be one of: " ++ listing c.texts)

/-- What a command line calls a value of this set. -/
def parameterName (c : Choices α) : Text := c.title.smallLetters

/-- The set in one line, for messages. -/
def describe (c : Choices α) : Text := "EnumParam(" ++ c.title ++ ")"

end Choices

/-! ## The sets -/

namespace Level

/-- The levels, by rank. -/
def choices : Choices Level :=
  ⟨"WarningLevel", all.map fun l => ⟨l.capitalName, Numeral.ofNat l.rank, l⟩⟩

/-- The names to choose from. -/
def names : List Text := all.map name

/-- Reads a level that a user named. -/
def readUserText (t : Text) : Except Text Level :=
  match ofUserText? t with
  | some l => .ok l
  | .none => .error ("Invalid level '" ++ t ++ "'. Must be one of: " ++ Choices.listing names)

/-- What a command line calls a level. -/
def parameterName : Text := "level"

/-- The set of levels in one line, for messages. -/
def describeChoices : Text := "WarningLevelParam()"

end Level

/-- The kinds of button, by number. -/
def ButtonKind.choices : Choices ButtonKind :=
  ⟨"ButtonType", all.map fun k => ⟨k.wireName, Numeral.ofNat k.number, k⟩⟩

/-- How a command prints its result: for a reader or for a program. -/
inductive OutputFormat where
  | text | json
  deriving DecidableEq

/-- The formats to choose from. -/
def OutputFormat.choices : Choices OutputFormat :=
  ⟨"OutputFormat", [⟨"TEXT", "text", text⟩, ⟨"JSON", "json", json⟩]⟩

/-- Whether a result in this format is for a program. -/
def OutputFormat.isMachine (f : Option OutputFormat) : Bool := f == some json

/-- When to print in color. -/
inductive ColorMode where
  | auto | always | never
  deriving DecidableEq

/-- The modes to choose from. -/
def ColorMode.choices : Choices ColorMode :=
  ⟨"ColorMode", [⟨"AUTO", "auto", auto⟩, ⟨"ALWAYS", "always", always⟩, ⟨"NEVER", "never", never⟩]⟩

/-- How a command ends. -/
inductive ExitStatus where
  | success
  /-- The report was read and has a level that reaches the threshold. -/
  | levelReached
  | usageError
  | formatError
  | fileNotFound
  | ioError
  | configError
  | unexpectedError
  deriving DecidableEq

namespace ExitStatus

/-- The number that the shell sees. -/
def number : ExitStatus → Nat
  | success => 0
  | levelReached => 1
  | usageError => 64
  | formatError => 65
  | fileNotFound => 66
  | ioError => 74
  | configError => 78
  | unexpectedError => 255

/-- The name of a status. -/
def name : ExitStatus → Text
  | success => "SUCCESS"
  | levelReached => "LEVEL_REACHED"
  | usageError => "USAGE_ERROR"
  | formatError => "FORMAT_ERROR"
  | fileNotFound => "FILE_NOT_FOUND"
  | ioError => "IO_ERROR"
  | configError => "CONFIG_ERROR"
  | unexpectedError => "UNEXPECTED_ERROR"

/-- Every status, by number. -/
def all : List ExitStatus :=
  [success, levelReached, usageError, formatError, fileNotFound, ioError, configError,
    unexpectedError]

/-- The statuses, by number. -/
def choices : Choices ExitStatus :=
  ⟨"ExitCode", all.map fun s => ⟨s.name, Numeral.ofNat s.number, s⟩⟩

end ExitStatus

end ReportTree
