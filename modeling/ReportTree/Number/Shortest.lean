import ReportTree.Number.Binary64

/-!
# Shortest decimals

A floating point number as text, with the fewest digits from which it can be read back. Of the
decimals with that many digits the one nearest to the number is taken.
-/

namespace ReportTree

/-- The number `digits * 10 ^ power`. -/
structure Decimal where
  digits : Nat
  power : Int
  deriving DecidableEq

namespace Decimal

/-- The floating point number nearest to a decimal. -/
def toBinary (d : Decimal) : Binary64 := .ofDecimal false d.digits d.power

/-- The power of ten at the leading digit of `num / den`, which is not zero. -/
def leadingPower (num den : Nat) : Int :=
  if den ≤ num then ((Nat.toDigits 10 (num / den)).length : Int) - 1
  else -((Nat.toDigits 10 ((num + den - 1) / num - 1)).length : Int)

/-- The two neighbours of `num / den` among the multiples of `10 ^ power`, the nearer one first; of
two equally near ones the even one. -/
def neighbours (num den : Nat) (power : Int) : List Decimal :=
  let (n, d) := Binary64.scale 10 (-power) num den
  let below : Decimal := ⟨n / d, power⟩
  let above : Decimal := ⟨n / d + 1, power⟩
  let r := n % d
  if 2 * r < d ∨ (2 * r = d ∧ below.digits % 2 = 0) then [below, above] else [above, below]

/-- Seventeen digits are enough for every number. -/
def mostDigits : Nat := 17

/-- The shortest decimal that rounds to the positive number `mantissa * 2 ^ exponent`. -/
def shortest? (mantissa : Nat) (exponent : Int) : Option Decimal :=
  let (num, den) := Binary64.ratio mantissa exponent
  let leading := leadingPower num den
  (List.range mostDigits).findSome? fun (more : Nat) =>
    (neighbours num den (leading - more)).find? fun d =>
      d.toBinary = .finite false mantissa exponent

/-- How a decimal is laid out: positionally while the power of ten at its leading digit is at least
`positionalFrom` and below `positionalBelow`, else with an exponent of at least `exponentWidth`
digits. -/
structure Format where
  positionalFrom : Int
  positionalBelow : Int
  exponentWidth : Nat

/-- So many zeros. -/
def zeros (n : Nat) : Text := Text.repeated n "0"

/-- Digits with a point after the first `whole`; there is a digit on both sides of it. -/
def withPoint (digits : Text) (whole : Nat) : Text :=
  let fraction := digits.drop whole
  digits.take whole ++ zeros (whole - digits.length) ++ "." ++
    (if fraction.isEmpty then zeros 1 else fraction)

/-- A decimal as text. -/
def Format.write (f : Format) (d : Decimal) : Text :=
  let written := Numeral.ofNat d.digits
  let digits := (written.reverse.dropWhile (· == .scalar '0')).reverse
  let leading : Int := d.power + written.length - 1
  if f.positionalFrom ≤ leading ∧ leading < f.positionalBelow then
    if 0 ≤ leading then withPoint digits (leading.toNat + 1)
    else withPoint (zeros (-leading).toNat ++ digits) 1
  else
    let fraction : Text := if digits.length ≤ 1 then [] else "." ++ digits.drop 1
    let mark : Text := if leading < 0 then "e-" else "e+"
    let power := Numeral.ofNat leading.natAbs
    digits.take 1 ++ fraction ++ mark ++ zeros (f.exponentWidth - power.length) ++ power

/-- The text of zero. -/
def zeroText : Text := "0.0"

/-- A floating point number as text. -/
def Format.writeBinary (f : Format) (x : Binary64) : Text :=
  let signed (negative : Bool) (t : Text) : Text := if negative then '-' :: t else t
  match x with
  | .undefined => "nan"
  | .infinite negative => signed negative "inf"
  | .finite negative mantissa exponent =>
    signed negative (if mantissa = 0 then zeroText
      else ((shortest? mantissa exponent).map f.write).getD zeroText)

end Decimal

end ReportTree
