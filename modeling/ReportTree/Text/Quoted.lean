import ReportTree.Text.Printable

/-!
# Quoted text

How a text is shown inside a message. It stands between single quotes, or between double quotes
when it holds a single quote and no double one. Backslash and the chosen quote are escaped, and so
is whatever is not printable.
-/

namespace ReportTree

/-- The hexadecimal digit of value `n`, in lower case. -/
def hexDigit (n : Nat) : CodePoint :=
  .scalar (if n < 10 then Char.ofNat ('0'.toNat + n) else Char.ofNat ('a'.toNat + (n - 10)))

/-- The last `width` hexadecimal digits of `n`. -/
def hexDigits : (width n : Nat) → Text
  | 0, _ => []
  | width + 1, n => hexDigits width (n / 16) ++ [hexDigit (n % 16)]

namespace Quoted

/-- The quote that a text is put between. -/
def quoteFor (t : Text) : CodePoint :=
  if t.contains '\'' && !t.contains '"' then '"' else '\''

/-- A code point by its number. -/
def numbered (c : CodePoint) : Text :=
  if c.toNat < 0x100 then "\\x" ++ hexDigits 2 c.toNat
  else if c.toNat < 0x10000 then "\\u" ++ hexDigits 4 c.toNat
  else "\\U" ++ hexDigits 8 c.toNat

/-- One code point of a text between two `quote`s. -/
def escape (quote c : CodePoint) : Text :=
  if c = quote ∨ c = '\\' then ['\\', c]
  else if c = '\n' then "\\n"
  else if c = '\r' then "\\r"
  else if c = '\t' then "\\t"
  else if c.isPrintable then [c]
  else numbered c

end Quoted

/-- A text between quotes. -/
def Text.quoted (t : Text) : Text :=
  let quote := Quoted.quoteFor t
  quote :: t.flatMap (Quoted.escape quote) ++ [quote]

end ReportTree
