import ReportTree.Text.Blank
import ReportTree.Text.Digit
import ReportTree.Text.Quoted

/-!
# Decimal numerals

Integers as text. A numeral that is read may have a sign, blanks around it, single underscores
between its digits and digits of any script; no numeral of more than `Numeral.digitLimit` digits is
read, and where a number is shown in a message, none is written.
-/

namespace ReportTree.Numeral

/-- The most digits of a numeral that is read. -/
def digitLimit : Nat := 4300

/-- Why a text is not read as an integer. -/
inductive Error where
  | malformed (text : Text)
  | tooLong (digits : Nat)
  deriving DecidableEq

/-- The numeral of a natural number. -/
def ofNat (n : Nat) : Text := (Nat.toDigits 10 n).map .scalar

/-- The numeral of an integer. -/
def ofInt : Int → Text
  | .ofNat n => ofNat n
  | .negSucc n => '-' :: ofNat (n + 1)

/-- So much of an unreadable text, with its quotes, is reported. -/
def shownLimit : Nat := 200

/-- The text that reports a numeral as unreadable. -/
def Error.message : Error → Text
  | malformed t => "invalid literal for int() with base 10: " ++ t.quoted.take shownLimit
  | tooLong n => "Exceeds the limit (" ++ ofNat digitLimit ++
      " digits) for integer string conversion: value has " ++ ofNat n ++
      " digits; use sys.set_int_max_str_digits() to increase the limit"

/-- The number has more digits than are written in a message. -/
def isLong (n : Int) : Bool := Nat.pow 10 digitLimit ≤ n.natAbs

/-- The message about a number with too many digits to be written. -/
def longMessage : Text :=
  "Exceeds the limit (" ++ ofNat digitLimit ++ " digits) for integer string conversion; " ++
    "use sys.set_int_max_str_digits() to increase the limit"

/-- The number with these digits, the most significant first. -/
def ofDigits (ds : List Nat) : Nat := ds.foldl (fun n d => 10 * n + d) 0

/-- The blanks that may surround a numeral: all but the four information separators. -/
def isPadding (c : CodePoint) : Bool := c.isBlank && !(0x1C ≤ c.toNat && c.toNat ≤ 0x1F)

/-- The text without the blanks that may follow a numeral. -/
def withoutEndPadding (t : Text) : Text := (t.reverse.dropWhile isPadding).reverse

/-- The text without the blanks that may surround a numeral. -/
def withoutPadding (t : Text) : Text := withoutEndPadding (t.dropWhile isPadding)

/-- The sign in front of a text, `true` for a minus, and the rest. -/
def splitSign : Text → Bool × Text
  | .scalar '-' :: t => (true, t)
  | .scalar '+' :: t => (false, t)
  | t => (false, t)

/-- `n` or its negation. -/
def signed (negative : Bool) (n : Nat) : Int := if negative then -n else n

/-- Reads an integer. -/
def read (t : Text) : Except Error Int :=
  let (negative, body) := splitSign (t.dropWhile isPadding)
  let inNumeral (c : CodePoint) : Bool := c == '_' || c.decimalValue?.isSome
  let run := body.takeWhile inNumeral
  let digits := run.filterMap CodePoint.decimalValue?
  if (Text.splitOn '_' run).any List.isEmpty then .error (.malformed t)
  else if digits.length > digitLimit then .error (.tooLong digits.length)
  else if (body.dropWhile inNumeral).all isPadding then .ok (signed negative (ofDigits digits))
  else .error (.malformed t)

end ReportTree.Numeral
