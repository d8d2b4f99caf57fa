import ReportTree.Json.Token
import ReportTree.Json.Writer

/-!
# String literals

What is written for a text reads back as that text, but for pairs of surrogate halves: a high half
with a low half right after it is read as the supplementary character that the two encode.

* `scanText_flatMap_escape`: the body of a literal is read as the text with its pairs joined.
* `tokens_writeText`: so the literal is one token, whatever follows it.
* `writeText_joinPairs`: joining the pairs of a text changes nothing of what is written for it.
-/

namespace ReportTree

/-- The text in which every high half with a low half right after it has become the character that
the two encode. -/
def Text.joinPairs : Text → Text
  | .high h :: .low l :: t => .ofPair h l :: joinPairs t
  | c :: t => c :: joinPairs t
  | [] => []

theorem CodePoint.toNat_ofPair (h l : Fin 1024) :
    (CodePoint.ofPair h l).toNat = 0x10000 + 1024 * h + l := by
  have hh := h.2
  have hl := l.2
  have hvalid : (0x10000 + 1024 * h.1 + l.1).isValidChar := by
    simp only [Nat.isValidChar]; omega
  have hc : Char.ofNat (0x10000 + 1024 * h.1 + l.1) = Char.ofNatAux _ hvalid := dif_pos hvalid
  rw [ofPair, toNat, hc]
  rfl

namespace Json

/-! ## Escapes -/

theorem hexValue?_hexDigit {n : Nat} (hn : n < 16) : (hexDigit n).hexValue? = some n := by
  have : ∀ n < 16, (hexDigit n).hexValue? = some n := by decide
  exact this n hn

theorem hexDigits_four (n : Nat) :
    hexDigits 4 n =
      [hexDigit (n / 4096 % 16), hexDigit (n / 256 % 16), hexDigit (n / 16 % 16),
        hexDigit (n % 16)] := by
  simp only [hexDigits, List.nil_append, List.cons_append, Nat.div_div_eq_div_mul]

/-- Four digits that were written for a UTF-16 unit are read as that unit. -/
theorem unit?_hexDigits {n : Nat} (hn : n < 0x10000) :
    unit? (hexDigit (n / 4096 % 16)) (hexDigit (n / 256 % 16)) (hexDigit (n / 16 % 16))
      (hexDigit (n % 16)) = some n := by
  have h0 := hexValue?_hexDigit (Nat.mod_lt n (by decide : 0 < 16))
  have h1 := hexValue?_hexDigit (Nat.mod_lt (n / 16) (by decide : 0 < 16))
  have h2 := hexValue?_hexDigit (Nat.mod_lt (n / 256) (by decide : 0 < 16))
  have h3 := hexValue?_hexDigit (Nat.mod_lt (n / 4096) (by decide : 0 < 16))
  simp only [unit?, h0, h1, h2, h3]
  have hsum : (n / 4096 % 16 * 16 + n / 256 % 16) * 256 + (n / 16 % 16 * 16 + n % 16) = n := by
    omega
  exact congrArg some hsum

/-- The escape of a unit, with something after it, adds the unit. -/
theorem scanText_escapeUnit {n : Nat} (hn : n < 0x10000) (start : Text) (p : Partial)
    (c : CodePoint) (rest : Text) :
    scanText start p (escapeUnit n ++ c :: rest) = scanText start (p.pushUnit n) (c :: rest) := by
  have hw : escapeUnit n ++ c :: rest =
      .scalar '\\' :: .scalar 'u' :: hexDigit (n / 4096 % 16) :: hexDigit (n / 256 % 16) ::
        hexDigit (n / 16 % 16) :: hexDigit (n % 16) :: c :: rest := by
    rw [escapeUnit, hexDigits_four]
    rfl
  rw [hw, scanText]
  have hquote : CodePoint.scalar '\\' ≠ .scalar '"' := by decide
  simp only [hquote, ↓reduceIte, unit?_hexDigits hn]

/-- A backslash and the character `e` stand for `x`. -/
theorem scanText_shortEscape {e x : CodePoint} (he : shortEscape? e = some x) (start : Text)
    (p : Partial) (rest : Text) :
    scanText start p (.scalar '\\' :: e :: rest) = scanText start (p.push x) rest := by
  have hquote : CodePoint.scalar '\\' ≠ .scalar '"' := by decide
  rw [scanText]
  · simp only [hquote, ↓reduceIte, he]
  · rintro rfl
    have hu : shortEscape? (.scalar 'u') = none := by decide
    rw [hu] at he
    cases he

/-- A printable character that no escape is needed for is read as it is. -/
theorem scanText_cons {c : CodePoint} (hq : c ≠ .scalar '"') (hb : c ≠ .scalar '\\')
    (hc : 0x20 ≤ c.toNat) (start : Text) (p : Partial) (rest : Text) :
    scanText start p (c :: rest) = scanText start (p.push c) rest := by
  have hcontrol : ¬c.toNat < 0x20 := by omega
  rw [scanText.eq_def]
  simp only [hq, hb, hcontrol, ↓reduceIte]

/-! ## Literals -/

/-- The character `c` as it is added to a text that is being read. -/
def Partial.add (p : Partial) : CodePoint → Partial
  | .scalar c => p.push (.scalar c)
  | .high h => ⟨p.settled, some h⟩
  | .low l =>
    match p.held with
    | some h => ⟨.ofPair h l :: p.done, none⟩
    | none => p.push (.low l)

theorem Partial.pushUnit_toNat (p : Partial) (c : CodePoint) : p.pushUnit c.toNat = p.add c := by
  rw [pushUnit, CodePoint.ofNat_toNat]
  cases c with
  | scalar c => rfl
  | high h => rfl
  | low l => cases hp : p.held <;> simp [add, push, hp]

/-- A supplementary character is written as two units, which are put together again. -/
theorem Partial.pushUnit_pushUnit (p : Partial) {c : CodePoint} (hc : 0x10000 ≤ c.toNat) :
    (p.pushUnit (0xD800 + (c.toNat - 0x10000) / 1024)).pushUnit
      (0xDC00 + (c.toNat - 0x10000) % 1024) = p.push c := by
  have hlt := c.toNat_lt
  have hhigh : (c.toNat - 0x10000) / 1024 < 1024 := by omega
  have hlow : (c.toNat - 0x10000) % 1024 < 1024 := by omega
  have hpair : CodePoint.ofPair ⟨_, hhigh⟩ ⟨_, hlow⟩ = c := by
    rw [← CodePoint.toNat_inj, CodePoint.toNat_ofPair]
    simp only
    omega
  have h1 : p.pushUnit (0xD800 + (c.toNat - 0x10000) / 1024) = p.add (.high ⟨_, hhigh⟩) :=
    p.pushUnit_toNat (.high ⟨_, hhigh⟩)
  have h2 : (p.add (.high ⟨_, hhigh⟩)).pushUnit (0xDC00 + (c.toNat - 0x10000) % 1024) =
      (p.add (.high ⟨_, hhigh⟩)).add (.low ⟨_, hlow⟩) :=
    (p.add (.high ⟨_, hhigh⟩)).pushUnit_toNat (.low ⟨_, hlow⟩)
  rw [h1, h2]
  simp only [add, hpair, push]

/-- What is written for one character adds it. Something has to follow, as the closing quote
does. -/
theorem scanText_escape (start : Text) (p : Partial) (c x : CodePoint) (rest : Text) :
    scanText start p (escape c ++ x :: rest) = scanText start (p.add c) (x :: rest) := by
  have hshort : ∀ e y : Char, shortEscape? e = some (.scalar y) →
      scanText start p (.scalar '\\' :: .scalar e :: x :: rest) =
        scanText start (p.add (.scalar y)) (x :: rest) :=
    fun e y he => scanText_shortEscape he start p (x :: rest)
  unfold escape
  split
  · next h => subst h; exact hshort '"' '"' (by decide)
  split
  · next h => subst h; exact hshort '\\' '\\' (by decide)
  split
  · next h => subst h; exact hshort 'n' '\n' (by decide)
  split
  · next h => subst h; exact hshort 'r' '\r' (by decide)
  split
  · next h => subst h; exact hshort 't' '\t' (by decide)
  split
  · next h => subst h; exact hshort 'f' '\x0C' (by decide)
  split
  · next h => subst h; exact hshort 'b' '\x08' (by decide)
  split
  · next hq hb _ _ _ _ _ hc =>
    rw [List.singleton_append, scanText_cons hq hb hc.1]
    cases c with
    | scalar c => rfl
    | high h => simp only [CodePoint.toNat] at hc; omega
    | low l => simp only [CodePoint.toNat] at hc; omega
  split
  · next hc =>
    rw [scanText_escapeUnit hc, Partial.pushUnit_toNat]
  · next hc =>
    have hlt := c.toNat_lt
    have hunit : ∀ n, ∃ d ds, escapeUnit n = d :: ds := fun n => ⟨_, _, rfl⟩
    obtain ⟨d, ds, hd⟩ := hunit (0xDC00 + (c.toNat - 0x10000) % 1024)
    rw [List.append_assoc, hd, List.cons_append, scanText_escapeUnit (by omega), ← List.cons_append,
      ← hd, scanText_escapeUnit (by omega), Partial.pushUnit_pushUnit p (by omega)]
    cases c with
    | scalar c => rfl
    | high h => simp only [CodePoint.toNat] at hc; omega
    | low l => simp only [CodePoint.toNat] at hc; omega

/-- The body of a literal is read to its end: what was read before, with the half that is held
back put in front of the text. -/
theorem scanText_flatMap_escape (start : Text) (p : Partial) (t rest : Text) :
    scanText start p (t.flatMap escape ++ .scalar '"' :: rest) =
      (.text (p.done.reverse ++ Text.joinPairs (p.held.toList.map .high ++ t)), rest) := by
  induction t generalizing p with
  | nil =>
    rw [List.flatMap_nil, List.nil_append, scanText.eq_def]
    obtain ⟨done, held⟩ := p
    cases held <;> simp [Partial.finish, Partial.settled, Text.joinPairs]
  | cons c t ih =>
    have hnext : ∃ x r, t.flatMap escape ++ CodePoint.scalar '"' :: rest = x :: r := by
      cases t.flatMap escape with
      | nil => exact ⟨_, _, rfl⟩
      | cons x r => exact ⟨_, _, rfl⟩
    obtain ⟨x, r, hr⟩ := hnext
    rw [List.flatMap_cons, List.append_assoc, hr, scanText_escape, ← hr, ih]
    obtain ⟨done, held⟩ := p
    cases c <;> cases held <;>
      simp [Partial.add, Partial.push, Partial.settled, Text.joinPairs]

/-- The literal of a text is one token, whatever follows it. -/
theorem tokens_writeText (t rest : Text) :
    tokens (writeText t ++ rest) =
      ⟨.text t.joinPairs, writeText t ++ rest⟩ :: tokens rest := by
  have hw : writeText t ++ rest = .scalar '"' :: (t.flatMap escape ++ .scalar '"' :: rest) := by
    simp [writeText]
  have hspace : isSpace (.scalar '"') = false := by decide
  have hmark : mark? (.scalar '"') = none := by decide
  have hscan : scan (.scalar '"') (t.flatMap escape ++ .scalar '"' :: rest) =
      (.text t.joinPairs, rest) := by
    rw [scan, hmark]
    simp only [↓reduceIte]
    exact scanText_flatMap_escape ..
  rw [hw, tokens, hspace, hscan]
  rfl

/-! ## Writing joined texts -/

/-- Outside of ASCII there are escapes only. -/
theorem escape_of_toNat_ge {c : CodePoint} (hc : 0x7F ≤ c.toNat) :
    escape c =
      if c.toNat < 0x10000 then escapeUnit c.toNat
      else escapeUnit (0xD800 + (c.toNat - 0x10000) / 1024) ++
        escapeUnit (0xDC00 + (c.toNat - 0x10000) % 1024) := by
  have hne : ∀ x : Char, x.toNat < 0x7F → c ≠ .scalar x := by
    rintro x hx rfl
    simp only [CodePoint.toNat] at hc
    omega
  have hprintable : ¬(0x20 ≤ c.toNat ∧ c.toNat ≤ 0x7E) := by omega
  unfold escape
  rw [if_neg (hne '"' (by decide)), if_neg (hne '\\' (by decide)), if_neg (hne '\n' (by decide)),
    if_neg (hne '\r' (by decide)), if_neg (hne '\t' (by decide)), if_neg (hne '\x0C' (by decide)),
    if_neg (hne '\x08' (by decide)), if_neg hprintable]

theorem escape_ofPair (h l : Fin 1024) :
    escape (.ofPair h l) = escape (.high h) ++ escape (.low l) := by
  have hh := h.2
  have hl := l.2
  have hpair := CodePoint.toNat_ofPair h l
  have hhigh : (CodePoint.high h).toNat = 0xD800 + h := rfl
  have hlow : (CodePoint.low l).toNat = 0xDC00 + l := rfl
  have hdiv : (0x10000 + 1024 * h.1 + l.1 - 0x10000) / 1024 = h := by omega
  have hmod : (0x10000 + 1024 * h.1 + l.1 - 0x10000) % 1024 = l := by omega
  rw [escape_of_toNat_ge (by omega), escape_of_toNat_ge (by omega), escape_of_toNat_ge (by omega),
    if_neg (by omega), if_pos (by omega), if_pos (by omega), hpair, hhigh, hlow, hdiv,
    hmod]

theorem writeText_joinPairs (t : Text) : writeText t.joinPairs = writeText t := by
  have hbody : t.joinPairs.flatMap escape = t.flatMap escape := by
    fun_induction Text.joinPairs t with
    | case1 h l t ih =>
      simp only [List.flatMap_cons, ih, escape_ofPair, List.append_assoc]
    | case2 c t _ ih => simp only [List.flatMap_cons, ih]
    | case3 => rfl
  rw [writeText, hbody, writeText]

end Json

end ReportTree
