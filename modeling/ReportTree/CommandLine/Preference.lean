import ReportTree.CommandLine.Choice
import ReportTree.Log

/-!
# Preferences

How much is logged and whether output is colored, from what the options, the environment and the
terminal say.
-/

namespace ReportTree

/-- The environment of a command: its variables with their values. -/
abbrev Environment := List (Text × Text)

namespace Environment

/-- The value of a variable that is set. -/
def get? (e : Environment) (name : Text) : Option Text := (e.find? fun v => v.1 = name).map (·.2)

/-- The log level that the environment asks for, as it is written there. -/
def logLevel? (e : Environment) : Option Text := e.get? "STATUSTREE_LOG_LEVEL"

end Environment

/-- The options for more and for less are both given. -/
inductive VerbosityError where
  | contradictory
  deriving DecidableEq

/-- The message of the error. -/
def VerbosityError.message : VerbosityError → Text
  | contradictory => "The '--verbose' and '--quiet' options are mutually exclusive."

namespace Preference

/-- The log threshold for so many options for more and for less. -/
def threshold (verbose quiet : Int) : Except VerbosityError Int :=
  if verbose > 0 ∧ quiet > 0 then .error .contradictory
  else if verbose ≥ 3 then .ok Log.trace
  else if verbose = 2 then .ok Log.debug
  else if verbose = 1 then .ok Log.info
  else if quiet ≥ 1 then .ok Log.error
  else .ok Log.warning

/-- Whether the environment asks for color in any case. -/
def forcesColor (e : Environment) : Bool :=
  match e.get? "FORCE_COLOR" with
  | some v => !v.isEmpty && v != "0"
  | none => false

/-- Whether output is colored: never in a format for programs, else as the option says, else as the
environment says, else on a terminal. -/
def color (mode : Option ColorMode) (format : Option Text) (e : Environment) (terminal : Bool) :
    Bool :=
  if format.any fun f => f.smallLetters = ("json" : Text) then false
  else if mode = some .always then true
  else if mode = some .never then false
  else if forcesColor e then true
  else if (e.get? "NO_COLOR").isSome then false
  else terminal

end Preference

end ReportTree
