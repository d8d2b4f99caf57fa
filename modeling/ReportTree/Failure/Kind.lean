import ReportTree.Text.Basic

/-!
# Kinds of failure

The class of an exception: its names and how its arguments become its message.
-/

namespace ReportTree.Failure

/-- How the arguments of a failure become its message. -/
inductive Wording where
  /-- One argument by itself, several as a tuple. -/
  | plain
  /-- As `plain`, but a single argument is quoted. -/
  | keyed
  /-- An error number with its text and the names of the files concerned. -/
  | system
  /-- As `system`, but a number in place of a file's name says how far an operation came. -/
  | blocked
  /-- The first argument, and the file that a second one names with its first code point. -/
  | headline
  /-- Where a text, the first argument, cannot be translated, and why. -/
  | untranslated
  /-- Which encoding, the first argument, does not encode which part of a text, and why. -/
  | unencoded
  deriving DecidableEq

/-- A class of failures. `presentable` ones have messages that are shown as they are; `sorted` ones
take the class that their error number stands for. -/
structure Kind where
  name : Text
  qualifiedName : Text
  module : Text
  wording : Wording := .plain
  presentable : Bool := false
  sorted : Bool := false
  deriving DecidableEq

namespace Kind

/-- The module whose name is left out in front of the names of its classes. -/
def builtins : Text := "builtins"

/-- The module of the errors that reports have of their own. -/
def reportErrors : Text := "statustree.core.errors"

/-- The kinds of system errors. -/
def systemNames : List Text :=
  ["OSError", "BlockingIOError", "ChildProcessError", "ConnectionError", "BrokenPipeError",
    "ConnectionAbortedError", "ConnectionRefusedError", "ConnectionResetError", "FileExistsError",
    "FileNotFoundError", "InterruptedError", "IsADirectoryError", "NotADirectoryError",
    "PermissionError", "ProcessLookupError", "TimeoutError"]

/-- The errors that reports have of their own. -/
def reportErrorNames : List Text :=
  ["StatusTreeError", "FormatError", "InvariantViolation", "FormattedError"]

/-- How the arguments of a built-in class become its message. -/
def wordingOf (name : Text) : Wording :=
  if name = "KeyError" then .keyed
  else if name = "UnicodeTranslateError" then .untranslated
  else if name = "UnicodeEncodeError" then .unencoded
  else if name = "BlockingIOError" then .blocked
  else if systemNames.contains name then .system
  else if name = "SyntaxError" ∨ name = "IndentationError" ∨ name = "TabError" then .headline
  else .plain

/-- The class that another name stands for. -/
def unalias (name : Text) : Text :=
  if name = "IOError" ∨ name = "EnvironmentError" then "OSError" else name

/-- The class with a well-known name. -/
def named (name : Text) : Kind :=
  let name := unalias name
  { name := name
    qualifiedName := name
    module := if reportErrorNames.contains name then reportErrors else builtins
    wording := wordingOf name
    presentable := name = "FormattedError"
    sorted := name = "OSError" }

/-- A class of its own that behaves as `base`. Only the built-in class of blocked operations knows
how far they came. -/
def derived (base : Kind) (name module qualifiedName : Text) : Kind :=
  { base with
    name := name
    qualifiedName := qualifiedName
    module := module
    wording := if base.wording = .blocked then .system else base.wording
    sorted := false }

/-- The error numbers that have a class of their own. -/
def ofErrorNumber? (n : Int) : Option Text :=
  if n = 1 ∨ n = 13 then some "PermissionError"
  else if n = 2 then some "FileNotFoundError"
  else if n = 3 then some "ProcessLookupError"
  else if n = 4 then some "InterruptedError"
  else if n = 10 then some "ChildProcessError"
  else if n = 11 ∨ n = 114 ∨ n = 115 then some "BlockingIOError"
  else if n = 17 then some "FileExistsError"
  else if n = 20 then some "NotADirectoryError"
  else if n = 21 then some "IsADirectoryError"
  else if n = 32 ∨ n = 108 then some "BrokenPipeError"
  else if n = 103 then some "ConnectionAbortedError"
  else if n = 104 then some "ConnectionResetError"
  else if n = 110 then some "TimeoutError"
  else if n = 111 then some "ConnectionRefusedError"
  else none

/-- The qualified name, with its module unless that goes without saying. -/
def fullName (k : Kind) : Text :=
  if k.module = builtins then k.qualifiedName else k.module ++ "." ++ k.qualifiedName

end Kind

end ReportTree.Failure
