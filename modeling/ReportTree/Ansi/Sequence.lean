import ReportTree.Text.Numeral

/-!
# Escape sequences

A terminal takes an escape character, an opening bracket, parameters, marks in between and a final
code point as a command. `Ansi.strip` takes such sequences out of a text.
-/

namespace ReportTree.Ansi

/-- The escape character. -/
def esc : CodePoint := '\x1B'

/-- The sequence that switches something on or off. -/
def switch (n : Nat) : Text := esc :: .scalar '[' :: Numeral.ofNat n ++ [.scalar 'm']

/-- The sequence that switches everything off. -/
def reset : Text := switch 0

/-- The code points numbered from `first` to `last`. -/
def isBetween (first last : Nat) (c : CodePoint) : Bool := first ≤ c.toNat && c.toNat ≤ last

/-- The parameters after the bracket: digits, colons, semicolons and the like. -/
def isParameter : CodePoint → Bool := isBetween 0x30 0x3F

/-- The marks after the parameters: spaces and punctuation. -/
def isIntermediate : CodePoint → Bool := isBetween 0x20 0x2F

/-- The code points that end a sequence: letters and the like. -/
def isFinal : CodePoint → Bool := isBetween 0x40 0x7E

/-- What follows the escape sequence that a text begins with. -/
def afterSequence? : Text → Option Text
  | e :: b :: t =>
    if e = esc ∧ b = '[' then
      match (t.dropWhile isParameter).dropWhile isIntermediate with
      | c :: rest => if isFinal c then some rest else none
      | [] => none
    else none
  | _ => none

/-- The text without its escape sequences, `skip` code points of which are passed over first. -/
def stripFrom : (skip : Nat) → Text → Text
  | _, [] => []
  | skip + 1, _ :: t => stripFrom skip t
  | 0, c :: t =>
    match afterSequence? (c :: t) with
    | some rest => stripFrom (t.length - rest.length) t
    | none => c :: stripFrom 0 t

/-- The text without its escape sequences. -/
def strip (t : Text) : Text := stripFrom 0 t

end ReportTree.Ansi
