import ReportTree.Text.Basic

/-!
# Blanks and comments

What may stand between the parts of a settings file. A comment runs from a number sign to the end of
its line and holds no control codes but tabs.
-/

namespace ReportTree.Toml

/-- Spaces and tabs. -/
def isSpace (c : CodePoint) : Bool := c == ' ' || c == '\t'

/-- Spaces, tabs and line breaks. -/
def isGap (c : CodePoint) : Bool := isSpace c || c == '\n' || c == '\r'

/-- Control codes other than the tab. -/
def isControl (c : CodePoint) : Bool := (c.toNat < 0x20 && c != '\t') || c.toNat == 0x7F

/-- The text without the spaces and tabs that it begins with. -/
def afterSpaces (t : Text) : Text := t.dropWhile isSpace

/-- The next line of a text whose line holds nothing more but spaces and a comment; `comment` says
that the comment has begun. -/
def nextLine? (comment : Bool) : Text → Option Text
  | [] => some []
  | c :: t =>
    if c = '\n' then some t
    else if comment then if isControl c then none else nextLine? true t
    else if isSpace c then nextLine? false t
    else if c = '#' then nextLine? true t
    else none

/-- What follows the blanks, line breaks and comments that a text begins with; `comment` says that a
comment has begun. -/
def afterGap? (comment : Bool) : Text → Option Text
  | [] => some []
  | c :: t =>
    if comment then
      if c = '\n' then afterGap? false t else if isControl c then none else afterGap? true t
    else if isGap c then afterGap? false t
    else if c = '#' then afterGap? true t
    else some (c :: t)

end ReportTree.Toml
