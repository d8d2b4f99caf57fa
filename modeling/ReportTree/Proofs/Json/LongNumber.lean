import ReportTree.Json.Reader

/-!
# Numbers that are not read

Reading a document goes wrong at the first token that may not come, and then it is a fault of the
text; or at an integer of more digits than are read, which is none.

* `run_eq_error_iff`: reading stops at a token that the state before it does not take.
* `read_eq_longNumber_iff`: when it is an integer that stops it.
-/

namespace ReportTree.Json

/-- A value may come next. -/
def State.wantsValue : State → Bool
  | .value _ | .firstItem _ => true
  | _ => false

/-- Where a value may come, the text has an integer of so many digits that it is not read. What
precedes it is the start of a document. -/
def MeetsLongNumber (t : Text) (digits : Nat) : Prop :=
  ∃ before x after s, tokens t = before ++ x :: after ∧ run (.value []) before = .ok s ∧
    s.wantsValue = true ∧ x.token = .longNumber digits

/-! ## Where reading stops -/

theorem run_eq_error_iff {s : State} {xs : List Lexeme} {e : Error} :
    run s xs = .error e ↔
      ∃ before x after s', xs = before ++ x :: after ∧ run s before = .ok s' ∧
        step s' x = .error e := by
  constructor
  · intro h
    induction xs generalizing s with
    | nil => cases h
    | cons x xs ih =>
      rw [run] at h
      split at h
      · next s' hs =>
        obtain ⟨before, y, after, s'', rfl, hrun, hstep⟩ := ih h
        refine ⟨x :: before, y, after, s'', rfl, ?_, hstep⟩
        rw [run, hs]
        exact hrun
      · next e' hs =>
        cases h
        exact ⟨[], x, xs, s, rfl, rfl, hs⟩
  · rintro ⟨before, x, after, s', rfl, hrun, hstep⟩
    rw [run_append, hrun]
    show run s' (x :: after) = _
    rw [run, hstep]

/-- A state in which a value may come takes no long integer, every other state takes none as a
token of the wrong kind. -/
theorem step_eq_longNumber_iff {s : State} {x : Lexeme} {digits : Nat} :
    step s x = .error (.longNumber digits) ↔
      s.wantsValue = true ∧ x.token = .longNumber digits := by
  obtain ⟨token, start⟩ := x
  cases s <;> cases token <;> simp [step, stepValue, stepName, State.wantsValue]

theorem finish_ne_longNumber (s : State) (digits : Nat) : s.finish ≠ .error (.longNumber digits) := by
  cases s <;> simp [State.finish]

theorem ofTokens_eq_longNumber_iff {t : Text} {digits : Nat} :
    ofTokens (tokens t) = .error (.longNumber digits) ↔ MeetsLongNumber t digits := by
  simp only [MeetsLongNumber, ← step_eq_longNumber_iff, ← run_eq_error_iff]
  rw [ofTokens]
  split
  · next s hs =>
    rw [hs]
    exact iff_of_false (finish_ne_longNumber s digits) (by simp)
  · next e hs => rw [hs, Except.error.injEq, Except.error.injEq]

/-- A byte order mark is one token, and no number. -/
theorem not_meetsLongNumber_byteOrderMark (t : Text) (digits : Nat) :
    ¬MeetsLongNumber (.scalar '\uFEFF' :: t) digits := by
  have hscan : scan (.scalar '\uFEFF') t = (.junk, []) := rfl
  have hspace : isSpace (.scalar '\uFEFF') = false := rfl
  rw [← ofTokens_eq_longNumber_iff, tokens, hspace, hscan, tokens]
  intro h
  cases h

/-- An integer that is too long is met, or the text is read to its end or to a fault. -/
theorem read_eq_longNumber_iff {t : Text} {digits : Nat} :
    read t = .error (.longNumber digits) ↔ MeetsLongNumber t digits := by
  unfold read
  split
  · exact iff_of_false (by simp) (not_meetsLongNumber_byteOrderMark _ digits)
  · exact ofTokens_eq_longNumber_iff

/-! ## How long it is -/

theorem scanText_ne_longNumber (start : Text) (p : Partial) (t : Text) (digits : Nat) :
    (scanText start p t).1 ≠ .longNumber digits := by
  fun_induction scanText start p t <;> simp_all

theorem mark?_ne_longNumber (c : CodePoint) (digits : Nat) : mark? c ≠ some (.longNumber digits) := by
  unfold mark?
  repeat' split
  all_goals simp

theorem scanWord?_ne_longNumber {t : Text} {r : Token × Text} (h : scanWord? t = some r)
    (digits : Nat) : r.1 ≠ .longNumber digits := by
  obtain ⟨⟨word, token⟩, hmem, hr⟩ := List.exists_of_findSome?_eq_some h
  obtain ⟨rest, -, rfl⟩ := Option.map_eq_some_iff.1 hr
  simp only [words, List.mem_cons, List.not_mem_nil, or_false, Prod.mk.injEq] at hmem
  rcases hmem with ⟨-, rfl⟩ | ⟨-, rfl⟩ | ⟨-, rfl⟩ | ⟨-, rfl⟩ | ⟨-, rfl⟩ | ⟨-, rfl⟩ <;> simp

theorem digitLimit_lt_of_numberToken {negative : Bool} {whole fraction : List Nat}
    {exponent : Option Int} {digits : Nat}
    (h : numberToken negative whole fraction exponent = .longNumber digits) :
    Numeral.digitLimit < digits := by
  unfold numberToken at h
  split at h
  · split at h
    · next hlong =>
      cases h
      exact hlong
    · cases h
  · cases h

theorem digitLimit_lt_of_scan {c : CodePoint} {t : Text} {digits : Nat}
    (h : (scan c t).1 = .longNumber digits) : Numeral.digitLimit < digits := by
  unfold scan at h
  split at h
  · next token hmark => exact absurd (h ▸ hmark) (mark?_ne_longNumber c digits)
  · split at h
    · exact absurd h (scanText_ne_longNumber _ _ _ digits)
    · split at h
      · next hword => exact absurd h (scanWord?_ne_longNumber hword digits)
      · split at h
        · next hnumber =>
          obtain ⟨_, -, rfl⟩ := Option.map_eq_some_iff.1 hnumber
          exact digitLimit_lt_of_numberToken h
        · cases h

theorem digitLimit_lt_of_mem_tokens {t : Text} {x : Lexeme} {digits : Nat} (hx : x ∈ tokens t)
    (h : x.token = .longNumber digits) : Numeral.digitLimit < digits := by
  fun_induction tokens t with
  | case1 => cases hx
  | case2 c t _ ih => exact ih hx
  | case3 c t _ ih =>
    rcases List.mem_cons.1 hx with rfl | hx
    · exact digitLimit_lt_of_scan h
    · exact ih hx

/-- No integer of `Numeral.digitLimit` digits or less is met. -/
theorem MeetsLongNumber.digitLimit_lt {t : Text} {digits : Nat} (h : MeetsLongNumber t digits) :
    Numeral.digitLimit < digits := by
  obtain ⟨before, x, after, s, ht, -, -, hx⟩ := h
  have hmem : x ∈ tokens t := ht ▸ List.mem_append_right _ List.mem_cons_self
  exact digitLimit_lt_of_mem_tokens hmem hx

/-! ## A long integer alone -/

theorem spanDigits_replicate (n : Nat) :
    spanDigits (List.replicate n (.scalar '1')) = (List.replicate n 1, []) := by
  induction n with
  | zero => rfl
  | succ n ih =>
    have hdigit : (CodePoint.scalar '1').asciiDigit? = some 1 := rfl
    rw [List.replicate_succ, spanDigits, hdigit, ih]
    rfl

theorem scan_replicate {n : Nat} (hn : Numeral.digitLimit ≤ n) :
    scan (.scalar '1') (List.replicate n (.scalar '1')) = (.longNumber (n + 1), []) := by
  have hmark : mark? (.scalar '1') = none := rfl
  have hword : scanWord? (.scalar '1' :: List.replicate n (.scalar '1')) = none := rfl
  have hspan : spanDigits (.scalar '1' :: List.replicate n (.scalar '1')) =
      (1 :: List.replicate n 1, []) := spanDigits_replicate (n + 1)
  have hnumber : scanNumber? (.scalar '1' :: List.replicate n (.scalar '1')) =
      some (.longNumber (n + 1), []) := by
    simp [scanNumber?, scanWhole?, splitMinus, hspan, scanFraction, scanExponent, numberToken,
      Nat.lt_succ_of_le hn]
  rw [scan, hmark, hword, hnumber]
  rfl

/-- A text of nothing but ones meets a long integer if there are enough of them. -/
theorem meetsLongNumber_replicate {n : Nat} (hn : Numeral.digitLimit ≤ n) :
    MeetsLongNumber (List.replicate (n + 1) (.scalar '1')) (n + 1) := by
  have hspace : isSpace (.scalar '1') = false := rfl
  have htokens : tokens (List.replicate (n + 1) (.scalar '1')) =
      [⟨.longNumber (n + 1), List.replicate (n + 1) (.scalar '1')⟩] := by
    rw [List.replicate_succ, tokens, hspace, scan_replicate hn, tokens]
    rfl
  exact ⟨[], _, [], .value [], htokens, rfl, rfl, rfl⟩

end ReportTree.Json
