import ReportTree.Ansi.Style
import ReportTree.Text.LetterCase

/-!
# The log

What is logged carries a level, a number that is larger for what matters more. A log keeps what
reaches its threshold, writes one line for each record and styles it by its level.
-/

namespace ReportTree.Log

/-- The levels that have names, by number. -/
def trace : Int := 5
def debug : Int := 10
def info : Int := 20
def warning : Int := 30
def error : Int := 40
def critical : Int := 50

/-- The threshold when nothing sets one. -/
def defaultThreshold : Int := critical

/-- The name of a level. -/
def levelName (n : Int) : Text :=
  if n = critical then "CRITICAL"
  else if n = error then "ERROR"
  else if n = warning then "WARNING"
  else if n = info then "INFO"
  else if n = debug then "DEBUG"
  else if n = trace then "TRACE"
  else "Level " ++ Numeral.ofInt n

/-- The names that a user may give for a level. -/
def userNames : List (Text × Int) :=
  [("TRACE", trace), ("DEBUG", debug), ("INFO", info), ("WARNING", warning), ("WARN", warning),
    ("ERROR", error), ("CRITICAL", critical), ("FATAL", critical), ("NOTSET", 0)]

/-- The level that a user names: blanks and letter case do not count, a text of digits is the number
of a level, an unknown name is no level. -/
def ofUserText? (t : Text) : Except Numeral.Error (Option Int) :=
  let key := t.trim.capitals
  if key.isEmpty then .ok none
  else if key.all CodePoint.isDigit then (Numeral.read key).map some
  else .ok ((userNames.find? fun p => p.1 = key).map (·.2))

/-- The threshold of a log: the one that is asked for, else the one that a user names, else the
default. -/
def threshold (asked : Option Int) (user : Option Text) : Except Numeral.Error Int :=
  match asked with
  | some n => .ok n
  | none => (ofUserText? (user.getD [])).map (·.getD defaultThreshold)

/-- The style of a level. -/
def style (n : Int) : Ansi.Style :=
  if n ≥ critical then [.redBright, .bold]
  else if n ≥ error then [.redBright]
  else if n ≥ warning then [.yellow]
  else if n ≥ info then [.green]
  else if n ≥ debug then [.gray]
  else if n ≥ trace then [.blue]
  else [.dim]

/-- Something that is logged, and where: file and line, then function. -/
structure Record where
  level : Int
  text : Text
  place : Text := "[FILE:LINE] [FUNC]"

/-- How a log is set up. -/
structure Setup where
  threshold : Int
  color : Bool

/-- A record as a line. A log that goes into more detail than `info` tells where it comes from. -/
def Setup.format (s : Setup) (r : Record) : Text :=
  let line := "[" ++ levelName r.level ++ "] " ++
    (if s.threshold ≥ info then r.text else r.place ++ " " ++ r.text)
  if s.color then (style r.level).paint line else line

/-- Whether a record is kept. A record of level 0 or below never is. -/
def Setup.keeps (s : Setup) (r : Record) : Bool := 0 < r.level && s.threshold ≤ r.level

/-- The lines of the records that are kept. -/
def Setup.write (s : Setup) (rs : List Record) : Text :=
  (rs.filter s.keeps).flatMap fun r => s.format r ++ "\n"

end ReportTree.Log
