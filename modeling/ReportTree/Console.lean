import ReportTree.Ansi.Sequence

/-!
# The console

What a command prints for its user, on standard output and standard error. Without color, escape
sequences are taken out of all that is printed.
-/

namespace ReportTree

/-- The sixteen colors of a terminal. -/
inductive Console.Color where
  | black | red | green | yellow | blue | magenta | cyan | white | reset
  | brightBlack | brightRed | brightGreen | brightYellow | brightBlue | brightMagenta
  | brightCyan | brightWhite
  deriving DecidableEq

namespace Console.Color

/-- The number that switches a color on. -/
def number : Color → Nat
  | black => 30
  | red => 31
  | green => 32
  | yellow => 33
  | blue => 34
  | magenta => 35
  | cyan => 36
  | white => 37
  | reset => 39
  | brightBlack => 90
  | brightRed => 91
  | brightGreen => 92
  | brightYellow => 93
  | brightBlue => 94
  | brightMagenta => 95
  | brightCyan => 96
  | brightWhite => 97

/-- The names of the colors. -/
def names : List (Text × Color) :=
  [("black", black), ("red", red), ("green", green), ("yellow", yellow), ("blue", blue),
    ("magenta", magenta), ("cyan", cyan), ("white", white), ("reset", reset),
    ("bright_black", brightBlack), ("bright_red", brightRed), ("bright_green", brightGreen),
    ("bright_yellow", brightYellow), ("bright_blue", brightBlue),
    ("bright_magenta", brightMagenta), ("bright_cyan", brightCyan),
    ("bright_white", brightWhite)]

/-- The color with this name. -/
def ofName? (t : Text) : Option Color := (names.find? fun p => p.1 = t).map (·.2)

end Console.Color

/-- How a text is set off: everything is reset after it, unless `reset` says not to. -/
structure Console.Emphasis where
  color : Option Console.Color := none
  bold : Option Bool := none
  underline : Option Bool := none
  reset : Bool := true

namespace Console

/-- The sequence for a switch that is left alone, set or cleared. -/
def toggle (on off : Nat) : Option Bool → Text
  | none => []
  | some true => Ansi.switch on
  | some false => Ansi.switch off

/-- The text, set off. -/
def Emphasis.apply (e : Emphasis) (t : Text) : Text :=
  (match e.color with
    | none => []
    | some c => Ansi.switch c.number) ++
  toggle 1 22 e.bold ++ toggle 4 24 e.underline ++ t ++ (if e.reset then Ansi.reset else [])

end Console

/-- What was printed so far. -/
structure Console where
  color : Bool
  out : Text := []
  err : Text := []

namespace Console

/-- A text as it is printed. -/
def shown (c : Console) (t : Text) : Text := if c.color then t else Ansi.strip t

/-- A text with the line break that may follow it. -/
def ended (t : Text) (newline : Bool) : Text := if newline then t ++ "\n" else t

/-- Prints on standard output. -/
def print (c : Console) (t : Text) (newline : Bool := true) : Console :=
  { c with out := c.out ++ c.shown (ended t newline) }

/-- Prints on standard error. -/
def printError (c : Console) (e : Emphasis) (t : Text) (newline : Bool) : Console :=
  { c with err := c.err ++ c.shown (ended (e.apply t) newline) }

/-- Warns on standard error. -/
def warn (c : Console) (t : Text) (newline : Bool := true) : Console :=
  c.printError { color := some .yellow } t newline

/-- Reports an error on standard error. -/
def error (c : Console) (t : Text) (newline : Bool := true) : Console :=
  c.printError { color := some .brightRed } t newline

/-- The text, set off if the console has color. -/
def styled (c : Console) (t : Text) (e : Emphasis) : Text := if c.color then e.apply t else t

end Console

end ReportTree
