import ReportTree.CommandLine.Choice
import ReportTree.CommandLine.Command
import ReportTree.Disk.Basic

/-!
# Requests

What the switches and words of a command line ask for. The values of switches are checked in the
order in which the switches were first given; asking for help comes before that, and words that
cannot be divided come before anything.
-/

namespace ReportTree.CommandLine

/-- Why a command line makes no sense. -/
inductive UsageError where
  | switch (e : SwitchError)
  | badValue (s : Switch) (reason : Text)
  | lacksFile
  | extraWords (words : List Text)
  | unknownCommand (name : Text)

/-- The message of the error. -/
def UsageError.message : UsageError → Text
  | switch e => e.message
  | badValue s reason => "Invalid value for " ++ s.shown ++ ": " ++ reason
  | lacksFile => "Missing argument 'FILE'."
  | extraWords words =>
    "Got unexpected extra argument" ++ (if words.length = 1 then "" else "s" : String) ++ " (" ++
      Text.join " " words ++ ")"
  | unknownCommand name => "No such command " ++ name.quoted ++ "."

/-- A switch that lacks its value or has one too many is reported without a hint. -/
def UsageError.hinted : UsageError → Bool
  | switch (.lacksValue _) | switch (.refusesValue _) => false
  | _ => true

/-- Why a request is not served. -/
inductive Refusal where
  /-- Help was asked for. -/
  | help
  | usage (e : UsageError)
  /-- The path of a settings file is none. -/
  | invalidPath (path : Text) (flaw : Path.Flaw)

/-- What is asked for in front of the command. -/
structure Common where
  quiet : Nat := 0
  verbose : Nat := 0
  noColor : Bool := false
  color : Option ColorMode := none
  configs : List Text := []
  ignoreFound : Bool := false

/-- What is asked of a command. -/
structure Request where
  file : Text := []
  failOn : Option Level := none
  format : Option OutputFormat := none
  indent : Option Int := none
  title : Option Text := none
  tab : Option Text := none
  mainText : Text := []

/-- A value that was read, or why it was not. -/
def checked {α β : Type} (s : Switch) (r : Except Text α) (use : α → β) : Except Refusal β :=
  match r with
  | .ok a => .ok (use a)
  | .error reason => .error (.usage (.badValue s reason))

/-- Reads when to print in color. -/
def readColorMode (t : Text) : Except Text ColorMode :=
  match ColorMode.choices.byText? t false with
  | some m => .ok m
  | none =>
    .error (t.quoted ++ " is not one of " ++
      Text.join ", " (ColorMode.choices.texts.map Text.quoted) ++ ".")

/-- Reads an indentation width. -/
def readIndent (t : Text) : Except Text Int :=
  match Numeral.read t with
  | .error _ => .error (t.quoted ++ " is not a valid integer range.")
  | .ok n => if n < 0 then .error (Numeral.ofInt n ++ " is not in the range x>=0.") else .ok n

/-- Checks that a file stands at a path. -/
def checkFile (d : Disk) (path : Text) : Except Refusal Unit :=
  let refuse (flaw : Text) : Except Refusal Unit :=
    .error (.usage (.badValue .config ("File " ++ (Path.shown path).quoted ++ flaw)))
  match d path with
  | .file _ => .ok ()
  | .directory => refuse " is a directory."
  | .missing | .blocked | .tooLong => refuse " does not exist."
  | .invalid flaw => .error (.invalidPath path flaw)

/-- Takes in the values of a switch in front of the command. -/
def Common.take (d : Disk) (given : Divided) (c : Common) (s : Switch) : Except Refusal Common :=
  match s with
  | .quiet => .ok { c with quiet := given.count s }
  | .verbose => .ok { c with verbose := given.count s }
  | .noColor => .ok { c with noColor := true }
  | .noConfig => .ok { c with ignoreFound := true }
  | .color => checked s (readColorMode (given.value s)) fun m => { c with color := some m }
  | .config => do
    (given.values s).forM (checkFile d)
    return { c with configs := given.values s }
  | _ => .ok c

/-- Takes in the value of a switch behind the command. -/
def Request.take (given : Divided) (r : Request) (s : Switch) : Except Refusal Request :=
  let value := given.value s
  match s with
  | .failOn => checked s (Level.readUserText value) fun l => { r with failOn := some l }
  | .format => checked s (OutputFormat.choices.read value) fun f => { r with format := some f }
  | .indent => checked s (readIndent value) fun n => { r with indent := some n }
  | .title => .ok { r with title := some value }
  | .tab => .ok { r with tab := some value }
  | .mainText => .ok { r with mainText := value }
  | _ => .ok r

/-- Words divided by the switches of a scope, unless help is asked for. -/
def divideFor (known : List Switch) (mixed : Bool) (words : List Text) :
    Except Refusal Divided :=
  match divide known mixed words with
  | .error e => .error (.usage (.switch e))
  | .ok d => if d.count .help = 0 then .ok d else .error .help

/-- What is asked for in front of the command, and the words from the command on. -/
def readCommon (d : Disk) (words : List Text) : Except Refusal (Common × List Text) := do
  let given ← divideFor commonSwitches false words
  let c ← given.switches.foldlM (Common.take d given) {}
  return (c, given.words)

/-- The command that words begin with, and the words behind it; `none` if there are no words. A word
in this place that looks like a switch is read as one before it is refused. -/
def readCommand (d : Disk) : List Text → Except Refusal (Option (Command × List Text))
  | [] => .ok none
  | name :: words =>
    match Command.ofName? name with
    | some c => .ok (some (c, words))
    | none => do
      if isSwitchWord name then let _ ← readCommon d (name :: words)
      throw (.usage (.unknownCommand name))

/-- What is asked of a command. -/
def readRequest (c : Command) (words : List Text) : Except Refusal Request := do
  let given ← divideFor c.switches true words
  let r ← given.switches.foldlM (Request.take given) {}
  match c.readsFile, given.words with
  | false, [] => return r
  | false, extra => throw (.usage (.extraWords extra))
  | true, [] => throw (.usage .lacksFile)
  | true, [file] => return { r with file := file }
  | true, _ :: extra => throw (.usage (.extraWords extra))

end ReportTree.CommandLine
