import ReportTree.CommandLine.Answer

/-!
# The program

From the words of a command line to what is printed and how the program ends. First the switches in
front of the command are read, then logging and color are set up, the settings loaded and the
command served. What is logged comes out as it happens.
-/

namespace ReportTree.CommandLine

/-- How the program ends. -/
inductive Ending where
  | status (s : ExitStatus)
  /-- The command line makes no sense. -/
  | misuse
  | crash (c : Crash)

/-- The number that the shell sees. -/
def Ending.number : Ending → Nat
  | status s => s.number
  | misuse => 2
  | crash _ => 1

/-- What the program has printed, and how it ended. -/
structure Outcome where
  out : Text
  err : Text
  ending : Ending

/-- A text as standard error shows it: a half of a surrogate pair by its number. -/
def visible (t : Text) : Text :=
  t.flatMap fun c => if Utf8.isHalf c then "\\u" ++ hexDigits 4 c.toNat else [c]

/-- A console on which a text was written to standard error. -/
def write (c : Console) (t : Text) : Console := { c with err := c.err ++ visible t }

/-- A console on which an error was reported. -/
def report (c : Console) (message : Text) : Console :=
  write c (c.shown ("Error: " ++ message ++ "\n"))

/-- Prints lines until one cannot be encoded. -/
def printLines (c : Console) : List Text → Console × Option Crash
  | [] => (c, none)
  | line :: lines =>
    let t := c.shown (line ++ "\n")
    match Utf8.unencodable? t with
    | some halves => (c, some (.unprintable t halves))
    | none => printLines { c with out := c.out ++ t } lines

/-- The end of the program when it does not come to the end of a command. -/
def Halt.finish (c : Console) : Halt → Outcome
  | .refusal scope .help =>
    let c := (printLines c [scope.help]).1
    { out := c.out, err := c.err, ending := .status .success }
  | .refusal scope (.usage e) =>
    let c :=
      if e.hinted then report (write c scope.hint) e.message
      else { report { c with color := false } e.message with color := c.color }
    { out := c.out, err := c.err, ending := .misuse }
  | .refusal _ (.invalidPath path flaw) =>
    { out := c.out, err := c.err, ending := .crash (.invalidPath path flaw) }
  | .problem p =>
    let c := report c p.message
    { out := c.out, err := c.err, ending := .status p.status }
  | .crash x => { out := c.out, err := c.err, ending := .crash x }

/-- The end of the program after a command. -/
def Answer.finish (c : Console) (setup : Log.Setup) (a : Answer) : Outcome :=
  let (c, crash) := printLines (write c (setup.write a.log)) a.lines
  { out := c.out, err := c.err, ending := (crash.map Ending.crash).getD (.status a.status) }

/-- How logging and color are set up. -/
def setupFor (s : Surroundings) (c : Common) : Except Halt Log.Setup := do
  let usual ← (Preference.threshold c.verbose c.quiet).mapError fun e => .problem (.verbosity e)
  let asked ← (Log.ofUserText? (s.environment.logLevel?.getD [])).mapError fun e =>
    .crash (.logLevel e)
  let mode := if c.noColor then .never else c.color.getD .auto
  return {
    threshold := asked.getD usual
    color := Preference.color (some mode) none s.environment s.terminal }

/-- Why the settings are not loaded. -/
def Halt.ofLoadError : Settings.LoadError → Halt
  | .refused e => .problem (.settings e)
  | .conflict c => .crash (.conflict c)
  | .notUtf8 fault => .crash (.notUtf8 fault)
  | .unwritable => .crash .unwritable
  | .invalidPath path flaw => .crash (.invalidPath path flaw)

/-- What is printed when no command is given. -/
def welcome : Answer where
  lines := ["Hint: use 'statustree check FILE' to check a report.", "", Scope.help none]

/-- Serves a command with the settings for it. -/
def serve (s : Surroundings) (settings : Settings) (color : Bool) :
    Option (Command × List Text) → Except Halt Answer
  | none => .ok welcome
  | some (c, words) => do
    let r ← (readRequest c words).mapError (Halt.refusal (some c))
    answer s settings color c r

/-- The program after logging is set up. -/
def runWith (s : Surroundings) (setup : Log.Setup) (common : Common)
    (command : Option (Command × List Text)) : Outcome :=
  let console : Console := { color := setup.color }
  match Settings.load s.disk s.place common.configs common.ignoreFound with
  | .error stopped =>
    (Halt.ofLoadError stopped.error).finish (write console (setup.write stopped.log))
  | .ok loaded =>
    let console := write console (setup.write loaded.log)
    match serve s loaded.layer.settings setup.color command with
    | .error h => h.finish console
    | .ok a => a.finish console setup

/-- Runs the program. -/
def run (s : Surroundings) (words : List Text) : Outcome :=
  let plain : Console := { color := false }
  let start : Except Halt (Common × Option (Command × List Text) × Log.Setup) := do
    let (common, rest) ← (readCommon s.disk words).mapError (Halt.refusal none)
    let command ← (readCommand s.disk rest).mapError (Halt.refusal none)
    return (common, command, ← setupFor s common)
  match start with
  | .error h => h.finish plain
  | .ok (common, command, setup) => runWith s setup common command

/-- The paths that the program looks at for these words: whatever may name a file in a word, and the
settings files of the working directory. -/
def lookedAt (place : Text) (words : List Text) : List Text :=
  let tails (word : Text) : List Text := (List.range word.length).map word.drop
  let named := words.flatMap fun word => if isSwitchWord word then tails word else [word]
  named ++ named.map Path.normal ++
    [Settings.sharedName, Settings.ownName].map fun name => place ++ "/" ++ name

/-- The variables of the environment that the program looks at. -/
def consulted : List Text := ["STATUSTREE_LOG_LEVEL", "FORCE_COLOR", "NO_COLOR"]

end ReportTree.CommandLine
