import ReportTree.CommandLine.Input
import ReportTree.Console
import ReportTree.Report.Build
import ReportTree.Report.Outline
import ReportTree.Settings.Override

/-!
# Answers

What each command prints and logs, and how it ends.
-/

namespace ReportTree.CommandLine

/-- What a command comes to. -/
structure Answer where
  log : List Log.Record := []
  lines : List Text
  status : ExitStatus := .success

/-- The version of the program. -/
def version : Text := "0.1.0"

/-- The settings that a request asks for, as a layer. -/
def Request.layer (r : Request) : Settings.Layer := { indent := r.indent, failOn := r.failOn }

/-- The settings of a command: those that were loaded, with what was asked for on top. -/
def effective (s : Settings) (r : Request) : Settings := (r.layer.onto s.layer).settings

/-- The format of a result: the one that was asked for, else `usual`. -/
def Request.formatOr (r : Request) (usual : OutputFormat) : OutputFormat := r.format.getD usual

/-- A text that was given, unless it is empty. -/
def givenText (t : Option Text) (otherwise : Text) : Text :=
  match t with
  | some (c :: t) => c :: t
  | _ => otherwise

/-- The name of a truth value in the log. -/
def truthName (b : Bool) : Text := Toml.Value.boolText b

/-- The level of a report reaches the threshold of a check. -/
def reached (level threshold : Level) : Bool := level.atLeast threshold

/-- How a check ends. -/
def checkStatus (reached : Bool) : ExitStatus := if reached then .levelReached else .success

/-- Prints a report as a document, or as lines for a reader. -/
def reportLines (r : Report) (f : OutputFormat) (s : Settings) (color : Bool) :
    Except Halt (List Text) :=
  match f with
  | .json =>
    match s.jsonLayout with
    | .ok layout => .ok [r.serialize layout]
    | .error e => .error (.crash (.width e))
  | .text => .ok (r.document.outline color)

/-- Tells the level of a report, and whether it reaches the threshold. -/
def check (s : Surroundings) (settings : Settings) (color : Bool) (r : Request) :
    Except Halt Answer := do
  let threshold := (effective settings r).failOn
  let report ← readReport s r.file
  let level := report.maximumLevel
  let hit := reached level threshold
  let record : Text :=
    r.file ++ ": maximum level " ++ level.name ++ ", threshold " ++ threshold.name ++
      ", reached=" ++ truthName hit
  let line : Text :=
    match r.formatOr .text with
    | .json =>
      Json.write .compact (.object [("file", .text r.file), ("level", .text level.name),
        ("fail_on", .text threshold.name), ("reached", .bool hit)])
    | .text => r.file ++ ": " ++ (if color then level.paint level.name else level.name)
  return {
    log := [{ level := Log.info, text := record }]
    lines := [line]
    status := checkStatus hit }

/-- Prints a report. -/
def display (s : Surroundings) (settings : Settings) (color : Bool) (r : Request) :
    Except Halt Answer := do
  let report ← readReport s r.file
  return { lines := ← reportLines report (r.formatOr .text) (effective settings r) color }

/-- Prints the report that `make` makes of a text, a title and the name of a tab. -/
def build (make : (text title tab : Text) → Report) (s : Surroundings) (settings : Settings)
    (color : Bool) (r : Request) : Except Halt Answer := do
  let input ← readInput s r.file
  let title := givenText r.title input.stem
  let report := make input.text title (givenText r.tab title)
  return { lines := ← reportLines report (r.formatOr .json) (effective settings r) color }

/-- Prints the report of an outline. -/
def outline (s : Surroundings) (settings : Settings) (color : Bool) (r : Request) :
    Except Halt Answer :=
  build (fun text title tab => .ofOutline text title tab r.mainText) s settings color r

/-- Prints the report of a list of paths. -/
def files (s : Surroundings) (settings : Settings) (color : Bool) (r : Request) :
    Except Halt Answer :=
  let icons := effective settings r
  build (fun text title tab => .ofPaths text title tab icons.folderIcon icons.fileIcon r.mainText)
    s settings color r

/-- Prints the version of the program. -/
def tellVersion (color : Bool) (r : Request) : Answer :=
  let line : Text :=
    match r.formatOr .text with
    | .json => Json.write .compact (.object [("version", .text version)])
    | .text => Console.styled { color := color } version { bold := some true }
  { lines := [line] }

/-- What a command comes to. -/
def answer (s : Surroundings) (settings : Settings) (color : Bool) (c : Command) (r : Request) :
    Except Halt Answer :=
  match c with
  | .check => check s settings color r
  | .display => display s settings color r
  | .outline => outline s settings color r
  | .files => files s settings color r
  | .version => .ok (tellVersion color r)

end ReportTree.CommandLine
