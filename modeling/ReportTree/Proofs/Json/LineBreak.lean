import ReportTree.Proofs.Json.RoundTrip
import ReportTree.Text.Lines

/-!
# Line breaks between tokens

A file's line breaks are unified before its text is read. What is read as JSON stays the same by
that: a string holds no line break, so all of them stand between tokens or where the text goes wrong.
A text that is no JSON has the same fault before and after, at the same place of the text.

* `scanNumber?_unifyNewlines`, `scanWord?_unifyNewlines`, `scanText_unifyNewlines`: each kind of
  token is read as before, and the rest is unified.
* `tokens_unifyNewlines`: so are all tokens of a text.
* `read_unifyNewlines`: the same document is read, or the same fault is found.
-/

namespace ReportTree.Json

open Text (unifyNewlines unifyNewlines_cons unifyNewlines_cr unifyNewlines_cons_cases)

/-- What was read, and the rest with its line breaks unified. -/
def unified {α : Type} (r : α × Text) : α × Text := (r.1, unifyNewlines r.2)

/-- What reads nothing at a line break reads as before if it does so at any other character. -/
theorem unified_of_cons {α : Type} (f : Text → α × Text) (a : α) (hnil : f [] = (a, []))
    (hcr : ∀ t, f (.scalar '\r' :: t) = (a, .scalar '\r' :: t))
    (hlf : ∀ t, f (.scalar '\n' :: t) = (a, .scalar '\n' :: t)) (t : Text)
    (hcons : ∀ c u, t = c :: u → c ≠ .scalar '\r' → f (c :: unifyNewlines u) = unified (f t)) :
    f (unifyNewlines t) = unified (f t) := by
  cases t with
  | nil => rw [hnil]; exact hnil
  | cons c t =>
    obtain ⟨rfl, u, hu⟩ | ⟨hc, hu⟩ := unifyNewlines_cons_cases c t
    · rw [hcr, unified, hu, hlf]
    · rw [hu, hcons c t rfl hc]

/-! ## Numbers -/

theorem spanDigits_unifyNewlines (t : Text) :
    spanDigits (unifyNewlines t) = unified (spanDigits t) := by
  induction t with
  | nil => rfl
  | cons c t ih =>
    refine unified_of_cons spanDigits [] rfl (fun _ => rfl) (fun _ => rfl) (c :: t) ?_
    rintro c t ⟨⟩ hc
    rw [spanDigits, spanDigits, ih]
    cases c.asciiDigit? with
    | none => exact congrArg (([], ·)) (unifyNewlines_cons hc t).symm
    | some d => rfl

/-- What follows the first digit of a text. -/
theorem drop_unifyNewlines {t : Text} (ht : (spanDigits t).1 ≠ []) :
    (unifyNewlines t).drop 1 = unifyNewlines (t.drop 1) := by
  cases t with
  | nil => rfl
  | cons c t =>
    have hc : c ≠ .scalar '\r' := by
      rintro rfl
      exact ht rfl
    rw [unifyNewlines_cons hc]
    rfl

theorem scanWhole?_unifyNewlines (t : Text) :
    scanWhole? (unifyNewlines t) = (scanWhole? t).map unified := by
  have hdrop := drop_unifyNewlines (t := t)
  rw [scanWhole?, scanWhole?, spanDigits_unifyNewlines]
  generalize spanDigits t = r at *
  obtain ⟨ds, rest⟩ := r
  match ds with
  | [] => rfl
  | 0 :: ds => exact congrArg (fun u => some ([0], u)) (hdrop (List.cons_ne_nil 0 ds))
  | (n + 1) :: ds => rfl

theorem scanFraction_unifyNewlines (t : Text) :
    scanFraction (unifyNewlines t) = unified (scanFraction t) := by
  have hnone {c : CodePoint} (hc : c ≠ .scalar '.') (t : Text) :
      scanFraction (c :: t) = ([], c :: t) := by
    rw [scanFraction]
    exact fun _ h => hc (List.cons.inj h).1
  refine unified_of_cons scanFraction [] rfl (fun _ => rfl) (fun _ => rfl) t ?_
  rintro c t ⟨⟩ hc
  by_cases hpoint : c = .scalar '.'
  · subst hpoint
    rw [scanFraction, scanFraction, spanDigits_unifyNewlines]
    generalize spanDigits t = r
    obtain ⟨ds, rest⟩ := r
    cases ds with
    | nil => exact congrArg (([], ·)) (unifyNewlines_cons hc t).symm
    | cons d ds => rfl
  · rw [hnone hpoint, hnone hpoint, unified, unifyNewlines_cons hc]

theorem splitSign_unifyNewlines (t : Text) :
    Numeral.splitSign (unifyNewlines t) = unified (Numeral.splitSign t) := by
  have hnone {c : CodePoint} (hm : c ≠ .scalar '-') (hp : c ≠ .scalar '+') (t : Text) :
      Numeral.splitSign (c :: t) = (false, c :: t) := by
    rw [Numeral.splitSign]
    · exact fun _ h => hm (List.cons.inj h).1
    · exact fun _ h => hp (List.cons.inj h).1
  refine unified_of_cons Numeral.splitSign false rfl (fun _ => rfl) (fun _ => rfl) t ?_
  rintro c t ⟨⟩ hc
  by_cases hm : c = .scalar '-'
  · subst hm
    rfl
  by_cases hp : c = .scalar '+'
  · subst hp
    rfl
  · rw [hnone hm hp, hnone hm hp, unified, unifyNewlines_cons hc]

theorem splitMinus_unifyNewlines (t : Text) :
    splitMinus (unifyNewlines t) = unified (splitMinus t) := by
  have hnone {c : CodePoint} (hm : c ≠ .scalar '-') (t : Text) :
      splitMinus (c :: t) = (false, c :: t) := by
    rw [splitMinus]
    exact fun _ h => hm (List.cons.inj h).1
  refine unified_of_cons splitMinus false rfl (fun _ => rfl) (fun _ => rfl) t ?_
  rintro c t ⟨⟩ hc
  by_cases hm : c = .scalar '-'
  · subst hm
    rfl
  · rw [hnone hm, hnone hm, unified, unifyNewlines_cons hc]

theorem scanExponent_unifyNewlines (t : Text) :
    scanExponent (unifyNewlines t) = unified (scanExponent t) := by
  refine unified_of_cons scanExponent none rfl (fun _ => rfl) (fun _ => rfl) t ?_
  rintro c t ⟨⟩ hc
  rw [scanExponent, scanExponent, splitSign_unifyNewlines]
  generalize Numeral.splitSign t = r
  obtain ⟨negative, body⟩ := r
  dsimp only [unified]
  rw [spanDigits_unifyNewlines]
  generalize spanDigits body = r
  obtain ⟨ds, rest⟩ := r
  have hnone : ((none : Option Int), c :: unifyNewlines t) = unified (none, c :: t) :=
    congrArg (none, ·) (unifyNewlines_cons hc t).symm
  cases isExponentMark c with
  | false => exact hnone
  | true =>
    cases ds with
    | nil => exact hnone
    | cons d ds => rfl

theorem scanNumber?_unifyNewlines (t : Text) :
    scanNumber? (unifyNewlines t) = (scanNumber? t).map unified := by
  rw [scanNumber?, scanNumber?, splitMinus_unifyNewlines]
  dsimp only [unified]
  rw [scanWhole?_unifyNewlines, Option.map_map, Option.map_map]
  refine congrArg (Option.map · _) (funext fun r => ?_)
  simp only [Function.comp, unified, scanFraction_unifyNewlines, scanExponent_unifyNewlines]

/-! ## Words -/

theorem dropStart?_unifyNewlines {w : Text} (hw : ∀ c ∈ w, c ≠ .scalar '\r' ∧ c ≠ .scalar '\n')
    (t : Text) :
    Text.dropStart? w (unifyNewlines t) = (Text.dropStart? w t).map unifyNewlines := by
  induction w generalizing t with
  | nil => rfl
  | cons x w ih =>
    obtain ⟨⟨hcr, hlf⟩, hw⟩ := List.forall_mem_cons.1 hw
    cases t with
    | nil => rfl
    | cons c t =>
      obtain ⟨rfl, u, hu⟩ | ⟨-, hu⟩ := unifyNewlines_cons_cases c t
      · rw [hu, Text.dropStart?, Text.dropStart?, if_neg hcr, if_neg hlf]
        rfl
      · rw [hu, Text.dropStart?, Text.dropStart?, ih hw]
        split <;> rfl

theorem scanWord?_unifyNewlines (t : Text) :
    scanWord? (unifyNewlines t) = (scanWord? t).map unified := by
  have hwords : ∀ w ∈ words, ∀ c ∈ w.1, c ≠ .scalar '\r' ∧ c ≠ .scalar '\n' := by decide
  rw [scanWord?, scanWord?]
  generalize words = ws at hwords
  induction ws with
  | nil => rfl
  | cons w ws ih =>
    obtain ⟨word, token⟩ := w
    obtain ⟨hw, hws⟩ := List.forall_mem_cons.1 hwords
    simp only [List.findSome?_cons, ih hws, dropStart?_unifyNewlines hw]
    cases Text.dropStart? word t <;> rfl

/-! ## Strings -/

/-- A token, with what was left of a text unified. -/
def Token.unified : Token → Token
  | .badText fault rest => .badText fault (unifyNewlines rest)
  | k => k

/-- What reading a string or any other token comes to, with what was left of a text unified. -/
def unifiedToken (r : Token × Text) : Token × Text := (r.1.unified, unifyNewlines r.2)

/-- What is no line feed in a text with unified line breaks was there before. -/
theorem exists_of_unifyNewlines_eq_cons {t u : Text} {c : CodePoint}
    (h : unifyNewlines t = c :: u) (hc : c ≠ .scalar '\n') :
    ∃ t', t = c :: t' ∧ unifyNewlines t' = u := by
  cases t with
  | nil => cases h
  | cons d t =>
    obtain ⟨-, u', hu'⟩ | ⟨-, hu'⟩ := unifyNewlines_cons_cases d t
    · rw [hu', List.cons.injEq] at h
      exact absurd h.1.symm hc
    · rw [hu', List.cons.injEq] at h
      obtain ⟨rfl, rfl⟩ := h
      exact ⟨t, rfl, rfl⟩

theorem ne_break_of_hexValue? {c : CodePoint} {n : Nat} (h : c.hexValue? = some n) :
    c ≠ .scalar '\r' ∧ c ≠ .scalar '\n' := by
  constructor
  · rintro rfl
    cases h
  · rintro rfl
    cases h

/-- The four digits of a unit are no line breaks. -/
theorem ne_break_of_unit? {a b c d : CodePoint} {n : Nat} (h : unit? a b c d = some n) :
    ∀ x ∈ [a, b, c, d], x ≠ .scalar '\r' ∧ x ≠ .scalar '\n' := by
  simp only [unit?, Option.bind_eq_bind, Option.bind_eq_some_iff] at h
  obtain ⟨_, ha, _, hb, _, hc, _, hd, -⟩ := h
  simp only [List.forall_mem_cons, List.not_mem_nil, false_imp_iff, implies_true, and_true]
  exact ⟨ne_break_of_hexValue? ha, ne_break_of_hexValue? hb, ne_break_of_hexValue? hc,
    ne_break_of_hexValue? hd⟩

/-- The unit with the four digits at the front of a text, and what follows them, if anything does. -/
def unitAt? : Text → Option (Nat × Text)
  | a :: b :: c :: d :: e :: t => (unit? a b c d).map fun n => (n, e :: t)
  | _ => none

theorem unitAt?_eq_some_iff {t rest : Text} {n : Nat} :
    unitAt? t = some (n, rest) ↔
      ∃ a b c d, t = a :: b :: c :: d :: rest ∧ unit? a b c d = some n ∧ rest ≠ [] := by
  constructor
  · intro h
    unfold unitAt? at h
    split at h
    · next a b c d e t =>
      obtain ⟨m, hm, heq⟩ := Option.map_eq_some_iff.1 h
      cases heq
      exact ⟨a, b, c, d, rfl, hm, List.cons_ne_nil e t⟩
    · cases h
  · rintro ⟨a, b, c, d, rfl, hn, hne⟩
    obtain ⟨e, t, rfl⟩ := List.exists_cons_of_ne_nil hne
    rw [unitAt?, hn]
    rfl

theorem unifyNewlines_eq_nil_iff {t : Text} : unifyNewlines t = [] ↔ t = [] := by
  cases t with
  | nil => exact iff_of_true rfl rfl
  | cons c t =>
    refine iff_of_false (fun h => ?_) (List.cons_ne_nil c t)
    obtain ⟨-, u, hu⟩ | ⟨-, hu⟩ := unifyNewlines_cons_cases c t
    all_goals
      rw [hu] at h
      cases h

theorem unitAt?_unifyNewlines (t : Text) : unitAt? (unifyNewlines t) = (unitAt? t).map unified := by
  refine Option.ext fun ⟨n, rest⟩ => ?_
  rw [unitAt?_eq_some_iff, Option.map_eq_some_iff]
  constructor
  · rintro ⟨a, b, c, d, h, hunit, hne⟩
    have hbreak := ne_break_of_unit? hunit
    simp only [List.forall_mem_cons] at hbreak
    obtain ⟨⟨-, ha⟩, ⟨-, hb⟩, ⟨-, hc⟩, ⟨-, hd⟩, -⟩ := hbreak
    obtain ⟨t₁, rfl, h₁⟩ := exists_of_unifyNewlines_eq_cons h ha
    obtain ⟨t₂, rfl, h₂⟩ := exists_of_unifyNewlines_eq_cons h₁ hb
    obtain ⟨t₃, rfl, h₃⟩ := exists_of_unifyNewlines_eq_cons h₂ hc
    obtain ⟨t, rfl, rfl⟩ := exists_of_unifyNewlines_eq_cons h₃ hd
    have ht : t ≠ [] := fun h => hne (unifyNewlines_eq_nil_iff.2 h)
    exact ⟨(n, t), unitAt?_eq_some_iff.2 ⟨a, b, c, d, rfl, hunit, ht⟩, rfl⟩
  · rintro ⟨⟨m, t'⟩, hunit, heq⟩
    cases heq
    obtain ⟨a, b, c, d, rfl, hunit, hne⟩ := unitAt?_eq_some_iff.1 hunit
    have hbreak := ne_break_of_unit? hunit
    simp only [List.forall_mem_cons] at hbreak
    obtain ⟨⟨ha, -⟩, ⟨hb, -⟩, ⟨hc, -⟩, ⟨hd, -⟩, -⟩ := hbreak
    refine ⟨a, b, c, d, ?_, hunit, fun h => hne (unifyNewlines_eq_nil_iff.1 h)⟩
    rw [unifyNewlines_cons ha, unifyNewlines_cons hb, unifyNewlines_cons hc, unifyNewlines_cons hd]

/-- A backslash and a `u` add the unit whose digits follow, or the string goes wrong there. -/
theorem scanText_unit (start : Text) (p : Partial) (t : Text) :
    scanText start p (.scalar '\\' :: .scalar 'u' :: t) =
      match unitAt? t with
      | some (n, rest) => scanText start (p.pushUnit n) rest
      | none => (.badText .unicodeEscape (.scalar 'u' :: t), []) := by
  have hquote : CodePoint.scalar '\\' ≠ .scalar '"' := by decide
  rw [scanText.eq_def]
  simp only [hquote, ↓reduceIte]
  rcases h : unitAt? t with _ | ⟨n, rest⟩
  · split
    · rw [unitAt?, Option.map_eq_none_iff] at h
      simp only [h]
    · rfl
  · obtain ⟨a, b, c, d, rfl, hunit, hne⟩ := unitAt?_eq_some_iff.1 h
    obtain ⟨e, t, rfl⟩ := List.exists_cons_of_ne_nil hne
    simp only [hunit]

/-- A backslash before what makes no escape with it. -/
theorem scanText_badEscape {e : CodePoint} (he : shortEscape? e = none) (hu : e ≠ .scalar 'u')
    (start : Text) (p : Partial) (t : Text) :
    scanText start p (.scalar '\\' :: e :: t) =
      (.badText .escape (.scalar '\\' :: e :: t), []) := by
  have hquote : CodePoint.scalar '\\' ≠ .scalar '"' := by decide
  rw [scanText.eq_def]
  simp only [hquote, ↓reduceIte, he]

theorem scanText_control {c : CodePoint} (hc : c.toNat < 0x20) (start : Text) (p : Partial)
    (t : Text) : scanText start p (c :: t) = (.badText .controlCharacter (c :: t), []) := by
  have hquote : c ≠ .scalar '"' := by
    rintro rfl
    exact absurd hc (by decide)
  have hbackslash : c ≠ .scalar '\\' := by
    rintro rfl
    exact absurd hc (by decide)
  rw [scanText.eq_def]
  simp only [hquote, hbackslash, hc, ↓reduceIte]

/-- A string is read as before, and goes wrong where it did. -/
theorem scanText_unifyNewlines (start : Text) (p : Partial) (t : Text) :
    scanText (unifyNewlines start) p (unifyNewlines t) = unifiedToken (scanText start p t) := by
  have hbackslash := unifyNewlines_cons (c := .scalar '\\') (by decide)
  have hu := unifyNewlines_cons (c := .scalar 'u') (by decide)
  have hbad {p : Partial} {t : Text} (ht : unitAt? t = none) :
      scanText (unifyNewlines start) p (unifyNewlines (.scalar '\\' :: .scalar 'u' :: t)) =
        unifiedToken (.badText .unicodeEscape (.scalar 'u' :: t), []) := by
    rw [hbackslash, hu, scanText_unit, unitAt?_unifyNewlines, ht, unifiedToken, Token.unified, hu]
    rfl
  fun_induction scanText start p t
  case case1 => rfl
  case case2 p t =>
    rw [unifyNewlines_cons (by decide), scanText.eq_def]
    rfl
  case case3 => rfl
  case case4 p a b c d e t n hunit _ ih =>
    have hat : unitAt? (a :: b :: c :: d :: e :: t) = some (n, e :: t) := by rw [unitAt?, hunit]; rfl
    rw [hbackslash, hu, scanText_unit, unitAt?_unifyNewlines, hat]
    exact ih
  case case5 hunit _ => exact hbad (by rw [unitAt?, hunit]; rfl)
  case case6 t ht _ => exact hbad (by rw [unitAt?]; exact ht)
  case case7 p e t _ y hescape _ ih =>
    have he : e ≠ .scalar '\r' := by
      rintro rfl
      cases hescape
    rw [hbackslash, unifyNewlines_cons he, scanText_shortEscape hescape, ih]
  case case8 p e t hunicode hescape _ =>
    rw [unifiedToken, Token.unified, hbackslash]
    obtain ⟨-, u, hnext⟩ | ⟨-, hnext⟩ := unifyNewlines_cons_cases e t
    · rw [hnext, scanText_badEscape (by decide) (by decide)]
      rfl
    · rw [hnext, scanText_badEscape hescape hunicode]
      rfl
  case case9 p c t hquote hbackslash hcontrol =>
    rw [unifiedToken, Token.unified]
    obtain ⟨-, u, hnext⟩ | ⟨-, hnext⟩ := unifyNewlines_cons_cases c t
    · rw [hnext, scanText_control (by decide)]
      rfl
    · rw [hnext, scanText_control hcontrol]
      rfl
  case case10 p c t hquote hbackslash hcontrol ih =>
    have hc : c ≠ .scalar '\r' := by
      rintro rfl
      exact hcontrol (by decide)
    rw [unifyNewlines_cons hc, scanText_cons hquote hbackslash (by omega), ih]

/-! ## Documents -/

theorem unified_of_mark? {c : CodePoint} {k : Token} (h : mark? c = some k) : k.unified = k := by
  unfold mark? at h
  repeat' split at h
  all_goals cases h
  all_goals rfl

theorem unified_of_scanWord? {t : Text} {r : Token × Text} (h : scanWord? t = some r) :
    r.1.unified = r.1 := by
  have hwords : ∀ w ∈ words, w.2.unified = w.2 := by simp [words, Token.unified]
  obtain ⟨w, hw, hr⟩ := List.exists_of_findSome?_eq_some h
  obtain ⟨rest, -, rfl⟩ := Option.map_eq_some_iff.1 hr
  exact hwords w hw

theorem unified_of_scanNumber? {t : Text} {r : Token × Text} (h : scanNumber? t = some r) :
    r.1.unified = r.1 := by
  obtain ⟨⟨whole, afterWhole⟩, -, rfl⟩ := Option.map_eq_some_iff.1 h
  simp only [numberToken]
  split
  · split <;> rfl
  · rfl

theorem unifiedToken_eq {r : Token × Text} (h : r.1.unified = r.1) : unifiedToken r = unified r :=
  congrArg (·, unifyNewlines r.2) h

theorem scan_unifyNewlines {c : CodePoint} {t : Text} (hc : c ≠ .scalar '\r') :
    scan c (unifyNewlines t) = unifiedToken (scan c t) := by
  have hword := scanWord?_unifyNewlines (c :: t)
  have hnumber := scanNumber?_unifyNewlines (c :: t)
  have htext := scanText_unifyNewlines (c :: t) ⟨[], none⟩ t
  rw [unifyNewlines_cons hc] at hword hnumber htext
  rw [scan, scan, hword, hnumber, htext]
  cases hmark : mark? c with
  | some k => exact (unifiedToken_eq (r := (k, t)) (unified_of_mark? hmark)).symm
  | none =>
    dsimp only
    split
    · rfl
    · cases hw : scanWord? (c :: t) with
      | some r => exact (unifiedToken_eq (unified_of_scanWord? hw)).symm
      | none =>
        cases hn : scanNumber? (c :: t) with
        | some r => exact (unifiedToken_eq (unified_of_scanNumber? hn)).symm
        | none => rfl

/-- A token with the line breaks in what was left of the text unified. -/
def Lexeme.unified (x : Lexeme) : Lexeme := ⟨x.token.unified, unifyNewlines x.start⟩

/-- The tokens of a text are as before. -/
theorem tokens_unifyNewlines (t : Text) :
    tokens (unifyNewlines t) = (tokens t).map Lexeme.unified := by
  fun_induction tokens t with
  | case1 => rw [unifyNewlines, tokens_nil, List.map_nil]
  | case2 c t hspace ih =>
    by_cases hc : c = .scalar '\r'
    · subst hc
      rcases unifyNewlines_cr t with ⟨hcr, -⟩ | hcr
      · rw [hcr, ih]
      · rw [hcr, tokens, ih]
        rfl
    · rw [unifyNewlines_cons hc, tokens, if_pos hspace, ih]
  | case3 c t hspace ih =>
    have hc : c ≠ .scalar '\r' := by
      rintro rfl
      exact hspace rfl
    rw [unifyNewlines_cons hc, tokens, if_neg hspace, scan_unifyNewlines hc, List.map_cons,
      Lexeme.unified, unifyNewlines_cons hc, ← ih]
    rfl

/-- An error with the line breaks in what was left of the text unified. -/
def Error.unified : Error → Error
  | fault f rest => fault f (unifyNewlines rest)
  | longNumber digits => longNumber digits

theorem step_unified (s : State) (x : Lexeme) :
    step s x.unified = (step s x).mapError Error.unified := by
  obtain ⟨k, start⟩ := x
  cases s <;> cases k <;> rfl

theorem run_map_unified (s : State) (xs : List Lexeme) :
    run s (xs.map Lexeme.unified) = (run s xs).mapError Error.unified := by
  induction xs generalizing s with
  | nil => rfl
  | cons x xs ih =>
    rw [List.map_cons, run, run, step_unified]
    cases step s x with
    | ok s' => exact ih s'
    | error e => rfl

theorem ofTokens_map_unified (xs : List Lexeme) :
    ofTokens (xs.map Lexeme.unified) = (ofTokens xs).mapError Error.unified := by
  rw [ofTokens, ofTokens, run_map_unified]
  cases run (.value []) xs with
  | ok s => cases s <;> rfl
  | error e => rfl

theorem read_of_head?_ne {t : Text} (h : t.head? ≠ some (.scalar '\uFEFF')) :
    read t = ofTokens (tokens t) := by
  unfold read
  split
  · exact absurd rfl h
  · rfl

/-- The same document is read after the line breaks of a text were unified, or the same fault is
found at the same place. -/
theorem read_unifyNewlines (t : Text) :
    read (unifyNewlines t) = (read t).mapError Error.unified := by
  by_cases hmark : t.head? = some (.scalar '\uFEFF')
  · obtain ⟨t, rfl⟩ := List.head?_eq_some_iff.1 hmark
    have hcons := unifyNewlines_cons (c := .scalar '\uFEFF') (by decide) t
    rw [hcons, read, read, ← hcons]
    rfl
  · have hmark' : (unifyNewlines t).head? ≠ some (.scalar '\uFEFF') := by
      intro h
      obtain ⟨u, hu⟩ := List.head?_eq_some_iff.1 h
      obtain ⟨t, rfl, -⟩ := exists_of_unifyNewlines_eq_cons hu (by decide)
      exact hmark rfl
    rw [read_of_head?_ne hmark, read_of_head?_ne hmark', tokens_unifyNewlines, ofTokens_map_unified]

end ReportTree.Json
