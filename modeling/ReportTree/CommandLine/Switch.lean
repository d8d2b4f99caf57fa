import ReportTree.Text.Quoted

/-!
# Switches

The options of the command line by their names, and how words are divided into switches with their
values and other words. Long names follow two dashes and take a value from the next word or after an
equals sign; short names follow one dash, several at a time, and take the rest of the word or the
next word.
-/

namespace ReportTree.CommandLine

/-- An option of the command line. -/
inductive Switch where
  | quiet | verbose | noColor | color | config | noConfig
  | failOn | format | indent | title | tab | mainText
  | help
  deriving DecidableEq

namespace Switch

/-- The long name, with its dashes. -/
def long : Switch → Text
  | quiet => "--quiet"
  | verbose => "--verbose"
  | noColor => "--no-color"
  | color => "--color"
  | config => "--config"
  | noConfig => "--no-config"
  | failOn => "--fail-on"
  | format => "--format"
  | indent => "--indent"
  | title => "--title"
  | tab => "--tab"
  | mainText => "--main-text"
  | help => "--help"

/-- The letter of the short name. -/
def letter? : Switch → Option CodePoint
  | quiet => some 'q'
  | verbose => some 'v'
  | config => some 'c'
  | help => some 'h'
  | _ => none

/-- The short name with a letter. -/
def short (letter : CodePoint) : Text := [.scalar '-', letter]

/-- Whether a value belongs to a switch. -/
def takesValue : Switch → Bool
  | color | config | failOn | format | indent | title | tab | mainText => true
  | _ => false

/-- All names of a switch, in messages. -/
def shown (s : Switch) : Text :=
  Text.join " / " ((s.long :: (s.letter?.map short).toList).map Text.quoted)

end Switch

/-- Why words cannot be divided. Each error tells the name that was given. -/
inductive SwitchError where
  | unknown (name : Text)
  | lacksValue (name : Text)
  | refusesValue (name : Text)
  deriving DecidableEq

/-- The message of the error. -/
def SwitchError.message : SwitchError → Text
  | unknown name => "No such option " ++ name.quoted ++ "."
  | lacksValue name => "Option " ++ name.quoted ++ " requires an argument."
  | refusesValue name => "Option " ++ name.quoted ++ " does not take a value."

/-- A switch that was given, with its value. -/
structure Given where
  switch : Switch
  value : Text := []
  deriving DecidableEq

/-- The switches in one word, and the last of them if its value is to come, by the name that was
given. -/
structure Word where
  given : List Given := []
  waiting : Option (Switch × Text) := none

/-- A word starts with switches if a dash and something else begin it. -/
def isSwitchWord : Text → Bool
  | .scalar '-' :: _ :: _ => true
  | _ => false

/-- The switches with short names in a word, after its dash. -/
def readLetters (known : List Switch) : Text → Except SwitchError Word
  | [] => .ok {}
  | c :: t =>
    match known.find? fun s => s.letter? = some c with
    | none => .error (.unknown (Switch.short c))
    | some s =>
      if s.takesValue then
        if t.isEmpty then .ok { waiting := some (s, Switch.short c) }
        else .ok { given := [{ switch := s, value := t }] }
      else
        (readLetters known t).map fun w => { w with given := { switch := s } :: w.given }

/-- The name in a word and the value after its first equals sign. -/
def splitEquals (t : Text) : Text × Option Text :=
  let name := t.takeWhile (· != .scalar '=')
  (name, if name.length < t.length then some (t.drop (name.length + 1)) else none)

/-- The switches in a word. -/
def readWord (known : List Switch) (word : Text) : Except SwitchError Word :=
  let (name, value?) := splitEquals word
  match known.find? fun s => s.long = name with
  | some s =>
    match value? with
    | some v =>
      if s.takesValue then .ok { given := [{ switch := s, value := v }] }
      else .error (.refusesValue name)
    | none =>
      if s.takesValue then .ok { waiting := some (s, name) } else .ok { given := [{ switch := s }] }
  | none =>
    if Text.dropStart? "--" word |>.isSome then .error (.unknown name)
    else readLetters known (word.drop 1)

/-- Words divided into switches and the rest. -/
structure Divided where
  given : List Given := []
  words : List Text := []

/-- Divides words. Two dashes alone end the switches, and so does the first other word, unless
`mixed` says that switches may follow it. -/
def divide (known : List Switch) (mixed : Bool) : List Text → Except SwitchError Divided
  | [] => .ok {}
  | word :: words =>
    if word = ("--" : Text) then .ok { words := words }
    else if isSwitchWord word then
      match readWord known word with
      | .error e => .error e
      | .ok { given, waiting := none } =>
        (divide known mixed words).map fun d => { d with given := given ++ d.given }
      | .ok { given, waiting := some (s, name) } =>
        match words with
        | [] => .error (.lacksValue name)
        | value :: words =>
          (divide known mixed words).map fun d =>
            { d with given := given ++ { switch := s, value := value } :: d.given }
    else if mixed then (divide known mixed words).map fun d => { d with words := word :: d.words }
    else .ok { words := word :: words }

namespace Divided

/-- The switches that were given, in the order of their first use. -/
def switches (d : Divided) : List Switch := (d.given.map (·.switch)).eraseDups

/-- How often a switch was given. -/
def count (d : Divided) (s : Switch) : Nat := d.given.countP fun g => g.switch = s

/-- The values of a switch, in order. -/
def values (d : Divided) (s : Switch) : List Text :=
  (d.given.filter fun g => g.switch = s).map (·.value)

/-- The value of a switch: of several the last one. -/
def value (d : Divided) (s : Switch) : Text := ((d.values s).getLast?).getD []

end Divided

end ReportTree.CommandLine
