import ReportTree.Text.Basic

/-!
# UTF-8

Texts as bytes. Decoding stops at the first fault and says what is wrong and where; encoding stops
at the first half of a surrogate pair, which has no bytes.

The second byte of a sequence is held to the range that its first byte leaves open, so that no code
point has two forms and no half of a surrogate pair has one.
-/

namespace ReportTree.Utf8

/-- What is wrong with a sequence of bytes. -/
inductive Flaw where
  | invalidStart
  | invalidContinuation
  | unexpectedEnd
  deriving DecidableEq, Repr

/-- The first fault of some bytes: `lead` is the byte at `start`, `stop` the position after the
bytes at fault. -/
structure Fault where
  flaw : Flaw
  start : Nat
  stop : Nat
  lead : UInt8
  deriving DecidableEq, Repr

/-- A sequence whose first byte, at `start`, has been read: `missing` bytes more are to come, the
next of them from `lowest` to `highest`, and `value` is what the bytes so far amount to. -/
structure Unfinished where
  start : Nat
  lead : UInt8
  missing : Nat
  lowest : UInt8
  highest : UInt8
  value : Nat

/-- The sequence of more than one byte that the byte `lead` at `start` begins. -/
def Unfinished.begin? (start : Nat) (lead : UInt8) : Option Unfinished :=
  if 0xC2 ≤ lead ∧ lead ≤ 0xDF then some ⟨start, lead, 1, 0x80, 0xBF, lead.toNat - 0xC0⟩
  else if lead = 0xE0 then some ⟨start, lead, 2, 0xA0, 0xBF, 0⟩
  else if lead = 0xED then some ⟨start, lead, 2, 0x80, 0x9F, 0xD⟩
  else if 0xE1 ≤ lead ∧ lead ≤ 0xEF then some ⟨start, lead, 2, 0x80, 0xBF, lead.toNat - 0xE0⟩
  else if lead = 0xF0 then some ⟨start, lead, 3, 0x90, 0xBF, 0⟩
  else if lead = 0xF4 then some ⟨start, lead, 3, 0x80, 0x8F, 4⟩
  else if 0xF1 ≤ lead ∧ lead ≤ 0xF3 then some ⟨start, lead, 3, 0x80, 0xBF, lead.toNat - 0xF0⟩
  else none

/-- Decodes the bytes from position `pos` on, in the middle of the sequence `open?` if there is
one. -/
def decodeFrom (pos : Nat) (open? : Option Unfinished) : List UInt8 → Except Fault Text
  | [] =>
    match open? with
    | none => .ok []
    | some s => .error ⟨.unexpectedEnd, s.start, pos, s.lead⟩
  | b :: bytes =>
    match open? with
    | none =>
      if b < 0x80 then (decodeFrom (pos + 1) none bytes).map (.ofNat b.toNat :: ·)
      else
        match Unfinished.begin? pos b with
        | none => .error ⟨.invalidStart, pos, pos + 1, b⟩
        | some s => decodeFrom (pos + 1) (some s) bytes
    | some s =>
      if s.lowest ≤ b ∧ b ≤ s.highest then
        let value := 64 * s.value + (b.toNat - 0x80)
        if s.missing ≤ 1 then (decodeFrom (pos + 1) none bytes).map (.ofNat value :: ·)
        else
          let s' := ⟨s.start, s.lead, s.missing - 1, 0x80, 0xBF, value⟩
          decodeFrom (pos + 1) (some s') bytes
      else .error ⟨.invalidContinuation, s.start, pos, s.lead⟩

/-- The text that some bytes encode. -/
def decode (bytes : List UInt8) : Except Fault Text := decodeFrom 0 none bytes

/-- The continuation byte with the six lowest bits of `n`. -/
def continuation (n : Nat) : UInt8 := (0x80 + n % 64).toUInt8

/-- The bytes of the code point with number `n`. -/
def encodeNumber (n : Nat) : List UInt8 :=
  if n < 0x80 then [n.toUInt8]
  else if n < 0x800 then [(0xC0 + n / 64).toUInt8, continuation n]
  else if n < 0x10000 then [(0xE0 + n / 4096).toUInt8, continuation (n / 64), continuation n]
  else [(0xF0 + n / 262144).toUInt8, continuation (n / 4096), continuation (n / 64),
    continuation n]

/-- The bytes of a text; a half of a surrogate pair is written as if it were a character. -/
def encodeLoose (t : Text) : List UInt8 := t.flatMap fun c => encodeNumber c.toNat

/-- The run of surrogate halves that keeps a text from being encoded: where it starts and where it
ends. -/
structure Unencodable where
  start : Nat
  stop : Nat
  deriving DecidableEq, Repr

/-- Whether a code point is half of a surrogate pair. -/
def isHalf : CodePoint → Bool
  | .scalar _ => false
  | _ => true

/-- The text that some bytes encode, with U+FFFD for every run of bytes at fault; `most` bounds the
number of such runs. -/
def decodeReplacing : (most : Nat) → List UInt8 → Text
  | 0, _ => []
  | most + 1, bytes =>
    match decode bytes with
    | .ok t => t
    | .error fault =>
      ((decode (bytes.take fault.start)).toOption.getD []) ++
        .scalar '\uFFFD' :: decodeReplacing most (bytes.drop fault.stop)

/-- The first run of surrogate halves of a text. -/
def unencodable? (t : Text) : Option Unencodable :=
  let before := t.takeWhile (!isHalf ·)
  let run := (t.dropWhile (!isHalf ·)).takeWhile isHalf
  if run.isEmpty then none else some ⟨before.length, before.length + run.length⟩

end ReportTree.Utf8
