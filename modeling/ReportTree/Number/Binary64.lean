import ReportTree.Text.Numeral

/-!
# Binary floating point

Numbers with 53 significant bits, as 64-bit words hold them, and the one nearest to a quotient or a
decimal.
-/

namespace ReportTree

/-- A floating point number; a finite one is `mantissa * 2 ^ exponent` with its sign. -/
inductive Binary64 where
  | finite (negative : Bool) (mantissa : Nat) (exponent : Int)
  | infinite (negative : Bool)
  | undefined
  deriving DecidableEq, Inhabited

namespace Binary64

/-- The exponent of the smallest numbers. -/
def leastExponent : Int := -1074

/-- The exponent of the largest numbers. -/
def greatestExponent : Int := 971

/-- The bits of a mantissa. -/
def precision : Nat := 53

/-- The least mantissa with all its bits. -/
def leastNormal : Nat := Nat.pow 2 (precision - 1)

/-- The natural number nearest to `num / den`, of two the even one. -/
def roundHalfEven (num den : Nat) : Nat :=
  let q := num / den
  let r := num % den
  if 2 * r < den then q else if den < 2 * r then q + 1 else q + q % 2

/-- Numerator and denominator of `num / den * base ^ power`. -/
def scale (base : Nat) (power : Int) (num den : Nat) : Nat × Nat :=
  if 0 ≤ power then (num * base.pow power.toNat, den) else (num, den * base.pow (-power).toNat)

/-- The exponent at which `num / den` has a mantissa of 53 bits, or the least one. -/
def exponentOf (num den : Nat) : Int :=
  let e : Int := num.log2 - den.log2 - (precision - 1 : Nat)
  let (n, d) := scale 2 (-e) num den
  max (if n < leastNormal * d then e - 1 else e) leastExponent

/-- The number nearest to `num / den`; of two, the one with the even mantissa. -/
def ofRatio (negative : Bool) (num den : Nat) : Binary64 :=
  if num = 0 then finite negative 0 leastExponent
  else
    let e := exponentOf num den
    let (n, d) := scale 2 (-e) num den
    let m := roundHalfEven n d
    let (m, e) := if m = 2 * leastNormal then (leastNormal, e + 1) else (m, e)
    if e ≤ greatestExponent then finite negative m e else infinite negative

/-- No number but zero and infinity has a leading digit that stands this far from the point. -/
def farthestDigit : Int := 400

/-- The number nearest to `digits * 10 ^ power`. -/
def ofDecimal (negative : Bool) (digits : Nat) (power : Int) : Binary64 :=
  let leading : Int := (Nat.toDigits 10 digits).length + power
  if digits = 0 ∨ leading < -farthestDigit then finite negative 0 leastExponent
  else if farthestDigit < leading then infinite negative
  else
    let (n, d) := scale 10 power digits 1
    ofRatio negative n d

/-- The quotient of naturals that a mantissa and an exponent amount to. -/
def ratio (mantissa : Nat) (exponent : Int) : Nat × Nat := scale 2 exponent mantissa 1

/-- The whole part, without regard to the sign. -/
def wholePart (mantissa : Nat) (exponent : Int) : Nat :=
  let (n, d) := ratio mantissa exponent
  n / d

end Binary64

end ReportTree
