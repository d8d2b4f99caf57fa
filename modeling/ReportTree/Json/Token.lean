import ReportTree.Json.Basic
import ReportTree.Text.Numeral

/-!
# JSON tokens

The lexical level of a JSON text. A token knows what was left of the text where it starts. A text
that goes wrong inside a string or a word still has tokens up to there: the last one says what is
wrong, and it depends on what precedes it whether that is the first fault of the text.

* `Json.scan_length_le`: what follows a token is shorter than what starts with it.
-/

namespace ReportTree.Json

/-- What is wrong with a string. -/
inductive StringFault where
  | unterminated
  | controlCharacter
  | escape
  | unicodeEscape
  deriving DecidableEq

/-- The smallest parts of a document. -/
inductive Token where
  | openObject
  | closeObject
  | openArray
  | closeArray
  | colon
  | comma
  | text (t : Text)
  /-- A string that goes wrong where `rest` is left of the text. -/
  | badText (fault : StringFault) (rest : Text)
  | null
  | bool (b : Bool)
  | number (n : Number)
  /-- An integer with more digits than are read. -/
  | longNumber (digits : Nat)
  /-- Whatever starts no other token. -/
  | junk

/-- A token, with what is left of the text at its start. -/
structure Lexeme where
  token : Token
  start : Text

/-- Space, tab and the two line breaks. -/
def isSpace (c : CodePoint) : Bool := c == ' ' || c == '\t' || c == '\n' || c == '\r'

/-! ## Strings -/

/-- The UTF-16 unit with these four hexadecimal digits. -/
def unit? (a b c d : CodePoint) : Option Nat := do
  return ((← a.hexValue?) * 16 + (← b.hexValue?)) * 256 + ((← c.hexValue?) * 16 + (← d.hexValue?))

/-- What a backslash and one code point stand for. -/
def shortEscape? (c : CodePoint) : Option CodePoint :=
  if c = '"' ∨ c = '\\' ∨ c = '/' then some c
  else if c = 'b' then some '\x08'
  else if c = 'f' then some '\x0C'
  else if c = 'n' then some '\n'
  else if c = 'r' then some '\r'
  else if c = 't' then some '\t'
  else none

/-- The text of a string so far, read backwards. A high half that was written as an escape is held
back, because the escape of a low half makes a pair with it. -/
structure Partial where
  done : Text := []
  held : Option (Fin 1024) := none

namespace Partial

/-- The text so far, read backwards, with what is held back. -/
def settled (p : Partial) : Text :=
  match p.held with
  | none => p.done
  | some h => .high h :: p.done

/-- One more code point, written as it is or as a short escape. -/
def push (p : Partial) (c : CodePoint) : Partial := ⟨c :: p.settled, none⟩

/-- One more UTF-16 unit, written as an escape. -/
def pushUnit (p : Partial) (n : Nat) : Partial :=
  match CodePoint.ofNat n, p.held with
  | .high h, _ => ⟨p.settled, some h⟩
  | .low l, some h => ⟨.ofPair h l :: p.done, none⟩
  | c, _ => ⟨c :: p.settled, none⟩

/-- The whole text. -/
def finish (p : Partial) : Text := p.settled.reverse

end Partial

/-- Reads the rest of a string that starts at `start`: its token and what follows it. -/
def scanText (start : Text) (p : Partial) : Text → Token × Text
  | [] => (.badText .unterminated start, [])
  | c :: t =>
    if c = '"' then (.text p.finish, t)
    else if c = '\\' then
      match t with
      | [] => (.badText .unterminated start, [])
      | .scalar 'u' :: t' =>
        match t' with
        | a :: b :: c' :: d :: e :: t'' =>
          match unit? a b c' d with
          | some n => scanText start (p.pushUnit n) (e :: t'')
          | none => (.badText .unicodeEscape t, [])
        | _ => (.badText .unicodeEscape t, [])
      | e :: t' =>
        match shortEscape? e with
        | some x => scanText start (p.push x) t'
        | none => (.badText .escape (c :: t), [])
    else if c.toNat < 0x20 then (.badText .controlCharacter (c :: t), [])
    else scanText start (p.push c) t

/-! ## Numbers -/

/-- The values of the decimal digits at the front, and what follows them. -/
def spanDigits : Text → List Nat × Text
  | [] => ([], [])
  | c :: t =>
    match c.asciiDigit? with
    | some d => let (ds, rest) := spanDigits t; (d :: ds, rest)
    | none => ([], c :: t)

/-- The digits before a point or exponent: a zero, or digits that start with no zero. -/
def scanWhole? (t : Text) : Option (List Nat × Text) :=
  match spanDigits t with
  | ([], _) => none
  | (0 :: _, _) => some ([0], t.drop 1)
  | (ds, rest) => some (ds, rest)

/-- The digits after a point, if a point and a digit are there. -/
def scanFraction : Text → List Nat × Text
  | .scalar '.' :: t =>
    match spanDigits t with
    | ([], _) => ([], .scalar '.' :: t)
    | (ds, rest) => (ds, rest)
  | t => ([], t)

/-- Whether a code point marks an exponent. -/
def isExponentMark (c : CodePoint) : Bool := c == 'e' || c == 'E'

/-- The exponent, if a mark and at least one digit are there. -/
def scanExponent : Text → Option Int × Text
  | [] => (none, [])
  | c :: t =>
    let (negative, body) := Numeral.splitSign t
    match isExponentMark c, spanDigits body with
    | true, (d :: ds, rest) => (some (Numeral.signed negative (Numeral.ofDigits (d :: ds))), rest)
    | _, _ => (none, c :: t)

/-- The minus in front of a number, and the rest. -/
def splitMinus : Text → Bool × Text
  | .scalar '-' :: t => (true, t)
  | t => (false, t)

/-- The number that is written with these parts. -/
def numberToken (negative : Bool) (whole fraction : List Nat) (exponent : Option Int) : Token :=
  if fraction.isEmpty && exponent.isNone then
    if whole.length > Numeral.digitLimit then .longNumber whole.length
    else .number (.integer (Numeral.signed negative (Numeral.ofDigits whole)))
  else
    .number (.decimal negative (Numeral.ofDigits (whole ++ fraction))
      (exponent.getD 0 - fraction.length))

/-- The number at the front of a text, the longest there is. -/
def scanNumber? (t : Text) : Option (Token × Text) :=
  (scanWhole? (splitMinus t).2).map fun (whole, afterWhole) =>
    let (fraction, afterFraction) := scanFraction afterWhole
    let (exponent, rest) := scanExponent afterFraction
    (numberToken (splitMinus t).1 whole fraction exponent, rest)

/-! ## Tokens -/

/-- The words of the language. -/
def words : List (Text × Token) :=
  [("null", .null), ("true", .bool true), ("false", .bool false),
    ("NaN", .number .undefined), ("Infinity", .number (.infinite false)),
    ("-Infinity", .number (.infinite true))]

/-- The word at the front of a text. -/
def scanWord? (t : Text) : Option (Token × Text) :=
  words.findSome? fun (word, token) => (Text.dropStart? word t).map fun rest => (token, rest)

/-- The mark that one code point is. -/
def mark? (c : CodePoint) : Option Token :=
  if c = '\x7b' then some .openObject
  else if c = '\x7d' then some .closeObject
  else if c = '[' then some .openArray
  else if c = ']' then some .closeArray
  else if c = ':' then some .colon
  else if c = ',' then some .comma
  else none

/-- The token that starts with `c`, and what follows it. Nothing is read after a fault. -/
def scan (c : CodePoint) (t : Text) : Token × Text :=
  match mark? c with
  | some token => (token, t)
  | none =>
    if c = '"' then scanText (c :: t) ⟨[], none⟩ t
    else
      match scanWord? (c :: t) with
      | some r => r
      | none =>
        match scanNumber? (c :: t) with
        | some r => r
        | none => (.junk, [])

/-! ## Progress -/

theorem scanText_length_le (start : Text) (p : Partial) (t : Text) :
    (scanText start p t).2.length ≤ t.length := by
  fun_induction scanText start p t <;> simp_all <;> omega

theorem spanDigits_length (t : Text) :
    (spanDigits t).1.length + (spanDigits t).2.length = t.length := by
  fun_induction spanDigits t with
  | case1 => rfl
  | case2 => simp_all; omega
  | case3 => simp

theorem scanWhole?_length_lt {t rest : Text} {ds : List Nat}
    (h : scanWhole? t = some (ds, rest)) : rest.length < t.length := by
  have hlen := spanDigits_length t
  unfold scanWhole? at h
  split at h
  · simp at h
  · next heq =>
    simp only [heq, List.length_cons, Option.some.injEq, Prod.mk.injEq] at hlen h
    rw [← h.2, List.length_drop]; omega
  · next ds' rest' hne _ heq =>
    simp only [heq, Option.some.injEq, Prod.mk.injEq] at hlen h
    have := List.length_pos_iff.2 fun h0 => hne h0
    rw [← h.2]; omega

theorem scanFraction_length_le (t : Text) : (scanFraction t).2.length ≤ t.length := by
  unfold scanFraction
  split
  · next t =>
    have := spanDigits_length t
    split
    · simp
    · simp_all; omega
  · simp

theorem splitSign_length_le (t : Text) : (Numeral.splitSign t).2.length ≤ t.length := by
  unfold Numeral.splitSign; split <;> simp

theorem scanExponent_length_le (t : Text) : (scanExponent t).2.length ≤ t.length := by
  unfold scanExponent
  split
  · simp
  · next c t =>
    have hs := splitSign_length_le t
    have hd := spanDigits_length (Numeral.splitSign t).2
    dsimp only
    split
    · next heq => simp only [heq, List.length_cons] at hd ⊢; omega
    · simp

theorem splitMinus_length_le (t : Text) : (splitMinus t).2.length ≤ t.length := by
  unfold splitMinus; split <;> simp

theorem scanNumber?_length_lt {t : Text} {r : Token × Text} (h : scanNumber? t = some r) :
    r.2.length < t.length := by
  obtain ⟨⟨whole, afterWhole⟩, hw, rfl⟩ := Option.map_eq_some_iff.1 h
  have h1 := scanWhole?_length_lt hw
  have h2 := scanFraction_length_le afterWhole
  have h3 := scanExponent_length_le (scanFraction afterWhole).2
  have h4 := splitMinus_length_le t
  simp only
  omega

theorem scanWord?_length_lt {t : Text} {r : Token × Text} (h : scanWord? t = some r) :
    r.2.length < t.length := by
  obtain ⟨⟨word, token⟩, hmem, hr⟩ := List.exists_of_findSome?_eq_some h
  obtain ⟨rest, hrest, rfl⟩ := Option.map_eq_some_iff.1 hr
  have hpos : ∀ w ∈ words, 0 < w.1.length := by decide
  rw [Text.dropStart?_eq_some_iff.1 hrest, List.length_append]
  have := hpos _ hmem
  simp only at *
  omega

theorem scan_length_le (c : CodePoint) (t : Text) : (scan c t).2.length ≤ t.length := by
  unfold scan
  split
  · simp
  · split
    · exact scanText_length_le ..
    · split
      · next h => have := scanWord?_length_lt h; simp only [List.length_cons] at this; omega
      · split
        · next h => have := scanNumber?_length_lt h; simp only [List.length_cons] at this; omega
        · simp

/-- The tokens of a text. -/
def tokens : Text → List Lexeme
  | [] => []
  | c :: t =>
    if isSpace c then tokens t
    else ⟨(scan c t).1, c :: t⟩ :: tokens (scan c t).2
termination_by t => t.length
decreasing_by
  · simp
  · have := scan_length_le c t; simp only [List.length_cons]; omega

end ReportTree.Json
