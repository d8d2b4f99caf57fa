import ReportTree.Toml.Quoted
import ReportTree.Toml.Value

/-!
# Numbers

Integers are decimal, or binary, octal or hexadecimal after a mark. Floating point numbers have a
point, an exponent or both, or are infinite or undefined by name. Low lines may stand between
digits.
-/

namespace ReportTree.Toml

/-- A base of integers. -/
inductive Base where
  | binary | octal | decimal | hexadecimal
  deriving DecidableEq

namespace Base

/-- How many digits a base has. -/
def size : Base → Nat
  | binary => 2
  | octal => 8
  | decimal => 10
  | hexadecimal => 16

/-- The bases with marks. -/
def marks : List (Text × Base) := [("0b", binary), ("0o", octal), ("0x", hexadecimal)]

/-- The base of a number without its sign, and its digits. -/
def split (t : Text) : Base × Text :=
  (marks.findSome? fun m => (Text.dropStart? m.1 t).map (m.2, ·)).getD (decimal, t)

/-- The ASCII digits of a base. -/
def isDigit (b : Base) (c : CodePoint) : Bool :=
  match c.hexValue? with
  | some n => n < b.size
  | none => false

/-- The value of a digit of any script. -/
def digitValue? (b : Base) (c : CodePoint) : Option Nat :=
  (Quoted.anyHexValue? c).filter (· < b.size)

end Base

/-- The text without its low lines, each of which stands between two digits; `before` says that a
digit stands in front of the text. -/
def withoutLowLines? (b : Base) : (before : Bool) → Text → Option Text
  | _, [] => some []
  | before, c :: t =>
    if c = '_' then
      if before && (t.head?.map b.isDigit).getD false then withoutLowLines? b false t else none
    else (withoutLowLines? b (b.isDigit c) t).map (c :: ·)

/-- The integer with these digits. -/
def readDigits? (b : Base) (t : Text) : Option Nat :=
  let t := Numeral.withoutEndPadding t
  if t.isEmpty then none
  else (t.mapM b.digitValue?).map fun ds => ds.foldl (fun n d => b.size * n + d) 0

/-- The digits that a text begins with, and the rest. -/
def splitDigits (t : Text) : List Nat × Text :=
  let isDigit (c : CodePoint) : Bool := c.decimalValue?.isSome
  ((t.takeWhile isDigit).filterMap CodePoint.decimalValue?, t.dropWhile isDigit)

/-- The exponent that ends a floating point number; there may be none. -/
def readExponent? : Text → Option Int
  | [] => some 0
  | .scalar 'e' :: t =>
    let (negative, t) := Numeral.splitSign t
    let (digits, rest) := splitDigits t
    if digits.isEmpty || !rest.isEmpty then none
    else some (Numeral.signed negative (Numeral.ofDigits digits))
  | _ => none

/-- The floating point number that a text in small letters stands for. It has a point or an
exponent. -/
def readReal? (t : Text) : Option Binary64 :=
  let (negative, t) := Numeral.splitSign (Numeral.withoutEndPadding t)
  let (whole, rest) := splitDigits t
  let (fraction, exponent) :=
    match rest with
    | .scalar '.' :: t => splitDigits t
    | _ => ([], rest)
  if rest.isEmpty ∨ (whole.isEmpty ∧ fraction.isEmpty) then none
  else
    (readExponent? exponent).map fun e =>
      .ofDecimal negative (Numeral.ofDigits (whole ++ fraction)) (e - fraction.length)

/-- The floating point number of a name. -/
def namedReal? (negative : Bool) (name : Text) : Option Binary64 :=
  if name = ("inf" : Text) then some (.infinite negative)
  else if name = ("nan" : Text) then some .undefined
  else none

/-- A decimal integer has no needless zero in front. -/
def hasNeedlessZero (t : Text) : Bool :=
  let allowed : List Text := ["0.", "0o", "0x", "0b", "0e"]
  match t with
  | .scalar '0' :: _ :: _ => !allowed.any fun a => a.isPrefixOf t.smallLetters
  | _ => false

/-- A point that ends a number or stands right in front of its exponent lacks a digit. -/
def hasBarePoint (b : Base) (t : Text) : Bool :=
  let mantissa := if b = .hexadecimal then t else t.takeWhile (· != .scalar 'e')
  t.getLast? == some (.scalar '.') || mantissa.getLast? == some (.scalar '.')

/-- The sign in front of a word, and the rest. -/
def splitMark : Text → Text × Text
  | [] => ([], [])
  | c :: t => if c = '+' ∨ c = '-' then ([c], t) else ([], c :: t)

/-- Only a decimal number has a sign, with a digit after it. -/
def isMisplacedSign (sign body : Text) : Bool :=
  !sign.isEmpty && ((Base.split body).1 != .decimal || body.head? == some (.scalar '.'))

/-- The number that a word stands for. -/
def readNumber? (word : Text) : Option Value :=
  let (sign, body) := splitMark word
  let base := (Base.split body).1
  match namedReal? (sign == ("-" : Text)) body with
  | some x => some (.real x)
  | none =>
    if hasNeedlessZero body || isMisplacedSign sign body then none
    else
      match withoutLowLines? base false body with
      | none => none
      | some body =>
        let body := body.smallLetters
        if hasBarePoint base body then none
        else
          let integer? : Option Int :=
            if base = .decimal then (Numeral.read (sign ++ body)).toOption
            else (readDigits? base (Base.split body).2).map Int.ofNat
          match integer? with
          | some n => some (.integer n)
          | none => (readReal? (sign ++ body)).map .real

end ReportTree.Toml
