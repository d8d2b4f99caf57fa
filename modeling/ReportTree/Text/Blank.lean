import ReportTree.Text.Basic

/-!
# Blank code points

The code points that separate words and lines. `Text.trim` takes them off both ends of a text.
-/

namespace ReportTree

/-- Spaces, tabs and separators: 29 code points. -/
def CodePoint.isBlank (c : CodePoint) : Bool :=
  let n := c.toNat
  (0x09 ≤ n && n ≤ 0x0D) || (0x1C ≤ n && n ≤ 0x20) || n == 0x85 || n == 0xA0 || n == 0x1680 ||
    (0x2000 ≤ n && n ≤ 0x200A) || n == 0x2028 || n == 0x2029 || n == 0x202F || n == 0x205F ||
    n == 0x3000

namespace Text

/-- The text without its leading blanks. -/
def trimStart (t : Text) : Text := t.dropWhile CodePoint.isBlank

/-- The text without its trailing blanks. -/
def trimEnd (t : Text) : Text := (t.reverse.dropWhile CodePoint.isBlank).reverse

/-- The text without the blanks at its two ends. -/
def trim (t : Text) : Text := trimEnd (trimStart t)

/-- A text of blanks only; the empty text is one. -/
def isBlank (t : Text) : Bool := t.all CodePoint.isBlank

end Text

end ReportTree
