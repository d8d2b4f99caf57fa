import ReportTree.CommandLine.Preference
import ReportTree.CommandLine.Request
import ReportTree.Report.Codec
import ReportTree.Settings.Loading

/-!
# Input

What a command reads and what can go wrong: problems that are reported in one line with an exit
status of their own, and faults that end the program as they are.
-/

namespace ReportTree.CommandLine

/-- What a program finds when it starts. -/
structure Surroundings where
  disk : Disk
  /-- The absolute path of the working directory. -/
  place : Text
  /-- All of the standard input. -/
  input : List UInt8
  environment : Environment
  /-- The output goes to a terminal. -/
  terminal : Bool := false

/-- A problem that is reported to the user. -/
inductive Problem where
  | verbosity (e : VerbosityError)
  | settings (e : Settings.FileError)
  | fileNotFound (path : Text)
  | unreadable (subject reason : Text)
  | undecodable (name : Text) (e : DecodeError)

namespace Problem

/-- The message of a problem. -/
def message : Problem → Text
  | verbosity e => e.message
  | settings e => e.message
  | fileNotFound path => "File not found: " ++ path
  | unreadable subject reason => "Cannot read " ++ subject ++ ": " ++ reason
  | undecodable name e => name ++ ": " ++ e.message

/-- How the program ends after a problem. -/
def status : Problem → ExitStatus
  | verbosity _ => .usageError
  | settings _ => .configError
  | fileNotFound _ => .fileNotFound
  | unreadable .. => .ioError
  | undecodable .. => .formatError

end Problem

/-- A fault that ends the program as it is. -/
inductive Crash where
  | logLevel (e : Numeral.Error)
  | longNumber (digits : Nat)
  | conflict (c : Toml.Conflict)
  | notUtf8 (fault : Utf8.Fault)
  | width (e : Json.WidthError)
  | unwritable
  | invalidPath (path : Text) (flaw : Path.Flaw)
  /-- The text `t` that was to be printed cannot be encoded. -/
  | unprintable (t : Text) (halves : Utf8.Unencodable)

/-- The message of a fault. -/
def Crash.message : Crash → Text
  | logLevel e => e.message
  | longNumber digits => (Numeral.Error.tooLong digits).message
  | conflict c => c.message
  | notUtf8 fault => fault.message
  | width e => e.message
  | unwritable => Numeral.longMessage
  | invalidPath path flaw => flaw.message path
  | unprintable t halves => halves.message t

/-- Why a command does not come to its end. -/
inductive Halt where
  | refusal (scope : Scope) (r : Refusal)
  | problem (p : Problem)
  | crash (c : Crash)

/-- What a command was given to read: its text, its name in messages and the name for what is made
of it. -/
structure Input where
  text : Text
  name : Text
  stem : Text

/-- The path that stands for the standard input. -/
def standardInput : Text := "-"

/-- Reads the file at a path, or the standard input, whose line breaks are left as they are. -/
def readInput (s : Surroundings) (path : Text) : Except Halt Input :=
  if path = standardInput then
    match Utf8.decode s.input with
    | .ok t => .ok ⟨t, "<stdin>", "stdin"⟩
    | .error fault => .error (.problem (.unreadable "STDIN" fault.message))
  else
    let normal := Path.normal path
    match s.disk.readText normal with
    | .ok t => .ok ⟨t, path, Path.stem normal⟩
    | .error (.closed .missing) => .error (.problem (.fileNotFound path))
    | .error (.closed e) => .error (.problem (.unreadable path (e.message normal)))
    | .error (.notUtf8 fault) => .error (.problem (.unreadable path fault.message))
    | .error (.invalidPath flaw) => .error (.crash (.invalidPath normal flaw))

/-- What it means that an input is no report. -/
def Halt.ofDecodeError (name : Text) : DecodeError → Halt
  | .object (.longNumber digits) => .crash (.longNumber digits)
  | e => .problem (.undecodable name e)

/-- Reads the report in the file at a path. -/
def readReport (s : Surroundings) (path : Text) : Except Halt Report := do
  let input ← readInput s path
  (Report.deserialize input.text).mapError (Halt.ofDecodeError input.name)

theorem readReport_eq {s : Surroundings} {path : Text} {input : Input}
    (h : readInput s path = .ok input) :
    readReport s path =
      (Report.deserialize input.text).mapError (Halt.ofDecodeError input.name) := by
  rw [readReport, h]
  rfl

end ReportTree.CommandLine
