import ReportTree.CommandLine.Switch

/-!
# Commands

The commands, the switches that each of them knows, and what is printed to explain them.
-/

namespace ReportTree.CommandLine

/-- The commands. -/
inductive Command where
  | check | display | outline | files | version
  deriving DecidableEq

namespace Command

/-- The name of a command. -/
def name : Command → Text
  | check => "check"
  | display => "show"
  | outline => "outline"
  | files => "files"
  | version => "version"

/-- All commands, by name. -/
def all : List Command := [check, files, outline, display, version]

/-- The command with this name. -/
def ofName? (t : Text) : Option Command := all.find? fun c => c.name = t

/-- The switches that a command knows. -/
def switches : Command → List Switch
  | check => [.failOn, .format, .help]
  | display => [.format, .indent, .help]
  | outline | files => [.mainText, .tab, .title, .format, .indent, .help]
  | version => [.format, .help]

/-- Whether a command reads a file. -/
def readsFile : Command → Bool
  | version => false
  | _ => true

end Command

/-- The switches that stand in front of the command. -/
def commonSwitches : List Switch := [.quiet, .verbose, .noColor, .color, .config, .noConfig, .help]

/-- How the program is called. -/
def programName : Text := "cli"

/-- Where a part of the command line stands: in front of the command, or behind it. -/
abbrev Scope := Option Command

namespace Scope

/-- The words up to the scope. -/
def path : Scope → Text
  | none => programName
  | some c => programName ++ " " ++ c.name

/-- What may follow, in one line. -/
def usage (s : Scope) : Text :=
  "Usage: " ++ s.path ++
    match s with
    | none => " [OPTIONS] [COMMAND] [ARGS]..."
    | some c => if c.readsFile then " [OPTIONS] FILE" else " [OPTIONS]"

/-- What is printed above an error of usage. -/
def hint (s : Scope) : Text :=
  s.usage ++ "\nTry '" ++ s.path ++ " --help' for help.\n\n"

end Scope

/-! ## Help -/

/-- An entry of a list: what it explains, and the lines that explain it. -/
structure HelpEntry where
  term : Text
  lines : List Text

/-- A list of entries under a title. -/
structure HelpList where
  title : Text
  entries : List HelpEntry

namespace HelpList

/-- The width of the column of terms. -/
def width (l : HelpList) : Nat := (l.entries.map (·.term.length)).foldl max 0 + 2

/-- A text filled up with spaces. -/
def filled (width : Nat) (t : Text) : Text := t ++ Text.repeated (width - t.length) " "

/-- The lines of an entry, the first of which begins with the term. -/
def entryLines (width : Nat) (e : HelpEntry) : List Text :=
  let terms : List Text := e.term :: List.replicate (e.lines.length - 1) []
  terms.zipWith (fun term line => "  " ++ filled width term ++ line) e.lines

/-- The lines of a list. -/
def lines (l : HelpList) : List Text :=
  (l.title ++ ":") :: l.entries.flatMap (entryLines l.width)

end HelpList

/-- The entry of the switch for help. -/
def helpEntry : HelpEntry := ⟨"-h, --help", ["Show this message and exit."]⟩

/-- The entry of the switch for the format, whose explanation ends with `more`. -/
def formatEntry (more : Text) : HelpEntry :=
  ⟨"--format OUTPUTFORMAT", ["Output format (text, json" ++ more ++ ")."]⟩

/-- The entry of the switch for the indentation. -/
def indentEntry : HelpEntry :=
  ⟨"--indent INTEGER RANGE",
    ["JSON indentation width (0 for compact single-line", "output).  [x>=0]"]⟩

/-- The entries of the switches that name the parts of a report. -/
def reportEntries : List HelpEntry :=
  [⟨"--main-text TEXT", ["Report main text."]⟩,
    ⟨"--tab TEXT", ["Name of the tab holding the tree (defaults to the", "report title)."]⟩,
    ⟨"--title TEXT", ["Report title (defaults to the input file name)."]⟩]

/-- The entries of the switches in front of the command. -/
def commonEntries : List HelpEntry :=
  [⟨"-q, --quiet", ["Only log errors."]⟩,
    ⟨"-v, --verbose",
      ["Increase log verbosity (stderr). Repeat up to", "three times for TRACE."]⟩,
    ⟨"--no-color", ["Disable color output (equivalent to", "--color=never)."]⟩,
    ⟨"--color [auto|always|never]", ["Color output: auto (default), always, or never."]⟩,
    ⟨"-c, --config FILE", ["Additional config file(s) to load and merge."]⟩,
    ⟨"--no-config", ["Ignore statustree.toml and pyproject.toml in the", "working directory."]⟩,
    helpEntry]

/-- The entries of the commands. -/
def commandEntries : List HelpEntry :=
  [⟨"check", ["Check a report's maximum warning level against a threshold."]⟩,
    ⟨"files", ["Build a file tree report from '/'-separated paths, one per line."]⟩,
    ⟨"outline", ["Build a report from outline markup (tabs, level markers, $icon$..."]⟩,
    ⟨"show", ["Print a report as a text outline or as canonical JSON."]⟩,
    ⟨"version", ["Show the current version of StatusTree."]⟩]

namespace Scope

/-- What a command is for. -/
def about : Scope → List Text
  | none => ["StatusTree CLI: inspect and build status reports."]
  | some .check =>
    ["Check a report's maximum warning level against a threshold. Use '-' to read", "STDIN."]
  | some .display =>
    ["Print a report as a text outline or as canonical JSON. Use '-' to read STDIN."]
  | some .outline => ["Build a report from outline markup (tabs, level markers, $icon$ tags)."]
  | some .files => ["Build a file tree report from '/'-separated paths, one per line."]
  | some .version => ["Show the current version of StatusTree."]

/-- The entries of the switches of a scope. -/
def entries : Scope → List HelpEntry
  | none => commonEntries
  | some .check =>
    [⟨"--fail-on LEVEL",
      ["Fail (exit 1) when the report reaches this level", "(default: error)."]⟩,
      formatEntry "", helpEntry]
  | some .display => [formatEntry "; default: text", indentEntry, helpEntry]
  | some .outline | some .files =>
    reportEntries ++ [formatEntry "; default: json", indentEntry, helpEntry]
  | some .version => [formatEntry "", helpEntry]

/-- The help for a scope. -/
def help (s : Scope) : Text :=
  let commands : List Text :=
    match s with
    | none => [] :: HelpList.lines ⟨"Commands", commandEntries⟩
    | some _ => []
  let about : List Text := s.about.map fun line => "  " ++ line
  let switches := HelpList.lines ⟨"Options", s.entries⟩
  Text.join "\n" ([s.usage, []] ++ about ++ [[]] ++ switches ++ commands)

end Scope

end ReportTree.CommandLine
