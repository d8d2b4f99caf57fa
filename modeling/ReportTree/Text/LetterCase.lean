import ReportTree.Text.Basic

/-!
# Letter case

Names are looked up without regard to case by comparing capitals with capitals, or small letters
with small letters. The names are ASCII, so only those code points count whose capital or small
form is ASCII: any other keeps itself, which is no ASCII name either way.
-/

namespace ReportTree

namespace CodePoint

/-- The capital form of a code point, where it is ASCII: one letter or the letters of a ligature. -/
def capital : CodePoint → Text
  | .scalar 'ß' => "SS"
  | .scalar 'ı' => "I"
  | .scalar 'ſ' => "S"
  | .scalar 'ﬀ' => "FF"
  | .scalar 'ﬁ' => "FI"
  | .scalar 'ﬂ' => "FL"
  | .scalar 'ﬃ' => "FFI"
  | .scalar 'ﬄ' => "FFL"
  | .scalar 'ﬅ' => "ST"
  | .scalar 'ﬆ' => "ST"
  | .scalar c => [.scalar c.toUpper]
  | c => [c]

/-- The small form of a code point, where it is ASCII. The Kelvin sign is a capital K. -/
def small : CodePoint → CodePoint
  | .scalar '\u212A' => 'k'
  | .scalar c => .scalar c.toLower
  | c => c

end CodePoint

namespace Text

/-- The text in capitals. -/
def capitals (t : Text) : Text := t.flatMap CodePoint.capital

/-- The text in small letters. -/
def smallLetters (t : Text) : Text := t.map CodePoint.small

end Text

end ReportTree
