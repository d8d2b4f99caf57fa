import ReportTree.Ansi.Style

/-!
# Taking escape sequences out of a text

Programs differ in what they take for an escape sequence. Each has a pattern for what may follow the
bracket, and all of them take the sequences that switch styles on and off.

Sequences cannot be put into a text anywhere: one could break another sequence, or what is left and
right of it could become one. They do no harm at a cut and behind a complete sequence.

* `Pattern.strip_append`: a text may be cut into two that are stripped by themselves.
* `Pattern.Alike`: texts that cannot be told apart in any text when that is stripped.
* `Pattern.alike_silent_append`, `Pattern.alike_append_silent`, `Pattern.alike_break`: where
  complete sequences may be put.
-/

namespace ReportTree.Ansi

/-- The code points at which a text is cut: those that begin a sequence or break a line. No sequence
goes on with one of them. -/
def cuts : List CodePoint := [esc, .scalar '\n', .scalar '\r']

/-- The text ends here, or goes on with a cut. -/
def Cut (t : Text) : Prop := ∀ c ∈ t.head?, c ∈ cuts

/-- What makes up an escape sequence after its bracket: parameters, then marks, then one final code
point. -/
structure Pattern where
  isParameter : CodePoint → Bool
  isMark : CodePoint → Bool
  isFinal : CodePoint → Bool
  isParameter_digit : ∀ c : Char, c.isDigit = true → isParameter c = true
  isParameter_m : isParameter 'm' = false
  isMark_m : isMark 'm' = false
  isFinal_m : isFinal 'm' = true
  isParameter_cut : ∀ c ∈ cuts, isParameter c = false
  isMark_cut : ∀ c ∈ cuts, isMark c = false
  isFinal_cut : ∀ c ∈ cuts, isFinal c = false

theorem isBetween_of_isDigit {c : Char} {last : Nat} (hc : c.isDigit = true) (hlast : 0x39 ≤ last) :
    isBetween 0x30 last c = true := by
  simp only [Char.isDigit, Bool.and_eq_true, decide_eq_true_eq, UInt32.le_iff_toNat_le] at hc
  rw [isBetween, Bool.and_eq_true, decide_eq_true_eq, decide_eq_true_eq]
  exact ⟨hc.1, Nat.le_trans hc.2 hlast⟩

namespace Pattern

/-- Whether a code point is one of `a` to `z` or `A` to `Z`. -/
def isLetter : CodePoint → Bool
  | .scalar c => c.isAlpha
  | _ => false

/-- Digits, semicolons and question marks, and a letter at the end. -/
def letters : Pattern where
  isParameter c := c == .scalar ';' || c == .scalar '?' || isBetween 0x30 0x39 c
  isMark _ := false
  isFinal := isLetter
  isParameter_digit c h := by
    rw [Bool.or_eq_true]
    exact .inr (isBetween_of_isDigit h (Nat.le_refl _))
  isParameter_m := by decide
  isMark_m := rfl
  isFinal_m := by decide
  isParameter_cut := by decide
  isMark_cut _ _ := rfl
  isFinal_cut := by decide

/-- The sequences that a console takes out. -/
def console : Pattern where
  isParameter := Ansi.isParameter
  isMark := isIntermediate
  isFinal := Ansi.isFinal
  isParameter_digit c h := isBetween_of_isDigit h (by decide)
  isParameter_m := by decide
  isMark_m := by decide
  isFinal_m := by decide
  isParameter_cut := by decide
  isMark_cut := by decide
  isFinal_cut := by decide

variable (p : Pattern)

/-- What follows the sequence that a text begins with. -/
def after? : Text → Option Text
  | e :: b :: t =>
    if e = esc ∧ b = '[' then
      match (t.dropWhile p.isParameter).dropWhile p.isMark with
      | c :: rest => if p.isFinal c then some rest else none
      | [] => none
    else none
  | _ => none

/-- The text without its sequences, `skip` code points of which are passed over first. -/
def stripFrom : (skip : Nat) → Text → Text
  | _, [] => []
  | skip + 1, _ :: t => stripFrom skip t
  | 0, c :: t =>
    match p.after? (c :: t) with
    | some rest => stripFrom (t.length - rest.length) t
    | none => c :: stripFrom 0 t

/-- The text without its sequences. -/
def strip (t : Text) : Text := p.stripFrom 0 t

theorem strip_console (t : Text) : console.strip t = Ansi.strip t := by
  have hfrom (skip : Nat) : console.stripFrom skip t = Ansi.stripFrom skip t := by
    induction t generalizing skip with
    | nil => cases skip <;> rfl
    | cons c t ih =>
      cases skip with
      | succ skip => exact ih skip
      | zero =>
        have hafter : console.after? (c :: t) = afterSequence? (c :: t) := rfl
        rw [stripFrom, Ansi.stripFrom, hafter]
        cases afterSequence? (c :: t) with
        | none => rw [ih]
        | some rest => exact ih _
  exact hfrom 0

variable {p} {c : CodePoint} {t u v q m : Text}

/-! ## One code point at a time -/

theorem strip_nil : p.strip [] = [] := rfl

theorem stripFrom_eq (skip : Nat) : p.stripFrom skip t = p.strip (t.drop skip) := by
  induction t generalizing skip with
  | nil => cases skip <;> rfl
  | cons c t ih =>
    cases skip with
    | zero => rfl
    | succ skip => exact ih skip

/-- What follows a sequence is the end of the text. -/
theorem suffix_of_after? (h : p.after? (c :: t) = some u) : u <:+ t := by
  unfold after? at h
  split at h
  · next heq =>
    cases heq
    split at h
    · split at h
      · next hdrop =>
        split at h
        · cases h
          exact (((List.suffix_cons _ _).trans (hdrop ▸ List.dropWhile_suffix _)).trans
            (List.dropWhile_suffix _)).trans (List.suffix_cons _ _)
        · cases h
      · cases h
    · cases h
  · cases h

theorem strip_of_after? (h : p.after? (c :: t) = some u) : p.strip (c :: t) = p.strip u := by
  obtain ⟨v, rfl⟩ := suffix_of_after? h
  rw [strip, stripFrom, h]
  dsimp only
  rw [stripFrom_eq, List.length_append, Nat.add_sub_cancel, List.drop_left]

theorem strip_of_after?_eq_none (h : p.after? (c :: t) = none) :
    p.strip (c :: t) = c :: p.strip t := by
  rw [strip, stripFrom, h]
  rfl

theorem strip_cons_of_ne (hc : c ≠ esc) : p.strip (c :: t) = c :: p.strip t := by
  refine strip_of_after?_eq_none ?_
  unfold after?
  split
  · next heq =>
    cases heq
    exact if_neg fun h => hc h.1
  · rfl

/-- A text without escape characters stays as it is, whatever follows it. -/
theorem strip_append_of_not_mem (h : esc ∉ t) : p.strip (t ++ u) = t ++ p.strip u := by
  induction t with
  | nil => rfl
  | cons c t ih =>
    rw [List.mem_cons, not_or] at h
    rw [List.cons_append, strip_cons_of_ne (Ne.symm h.1), ih h.2, List.cons_append]

/-! ## Cutting -/

theorem cut_nil : Cut [] := fun _ h => by cases h

theorem cut_cons (hc : c ∈ cuts) : Cut (c :: t) := fun _ h => by
  cases h
  exact hc

/-- What is passed over does not go past a cut. -/
theorem dropWhile_append_of_cut {f : CodePoint → Bool} (hf : ∀ c ∈ cuts, f c = false) (hu : Cut u) :
    (t ++ u).dropWhile f = t.dropWhile f ++ u := by
  have hstop : u.dropWhile f = u := by
    cases u with
    | nil => rfl
    | cons c u => exact List.dropWhile_cons_of_neg (Bool.eq_false_iff.1 (hf c (hu c rfl)))
  rw [List.dropWhile_append, hstop]
  split
  · next h => rw [List.isEmpty_iff.1 h, List.nil_append]
  · rfl

/-- A sequence does not go past a cut. -/
theorem after?_append (hu : Cut u) :
    p.after? (c :: t ++ u) = (p.after? (c :: t)).map (· ++ u) := by
  cases t with
  | nil =>
    cases u with
    | nil => rfl
    | cons d u =>
      have hd : d ≠ '[' := by
        rintro rfl
        exact absurd (hu _ rfl) (by decide)
      exact if_neg fun h => hd h.2
  | cons b t =>
    simp only [List.cons_append, after?]
    split
    · rw [dropWhile_append_of_cut p.isParameter_cut hu, dropWhile_append_of_cut p.isMark_cut hu]
      cases (t.dropWhile p.isParameter).dropWhile p.isMark with
      | nil =>
        cases u with
        | nil => rfl
        | cons d u =>
          have hd : ¬p.isFinal d = true := Bool.eq_false_iff.1 (p.isFinal_cut d (hu d rfl))
          exact if_neg hd
      | cons d rest =>
        simp only [List.cons_append]
        split <;> rfl
    · rfl

/-- A text may be cut into two that are stripped by themselves. -/
theorem strip_append (hu : Cut u) : p.strip (t ++ u) = p.strip t ++ p.strip u := by
  induction hn : t.length using Nat.strongRecOn generalizing t with
  | _ n ih =>
    subst hn
    cases t with
    | nil => rfl
    | cons c t =>
      have hafter : p.after? (c :: (t ++ u)) = _ := after?_append hu
      cases h : p.after? (c :: t) with
      | none =>
        rw [h] at hafter
        rw [List.cons_append, strip_of_after?_eq_none h, strip_of_after?_eq_none hafter,
          ih _ (Nat.lt_succ_self _) rfl, List.cons_append]
      | some rest =>
        rw [h] at hafter
        have hlt : rest.length < (c :: t).length :=
          Nat.lt_succ_of_le (suffix_of_after? h).length_le
        rw [List.cons_append, strip_of_after? h, strip_of_after? hafter, ih _ hlt rfl]

/-! ## Complete sequences -/

/-- Complete sequences, one after the other, as every pattern sees them. -/
structure Silent (q : Text) : Prop where
  head_eq : ∀ c ∈ q.head?, c = esc
  strip_append_eq : ∀ (p : Pattern) (t : Text), p.strip (q ++ t) = p.strip t

theorem silent_nil : Silent [] where
  head_eq _ h := by cases h
  strip_append_eq _ _ := rfl

theorem Silent.append (hq : Silent q) (hm : Silent m) : Silent (q ++ m) where
  head_eq c h := by
    cases q with
    | nil => exact hm.head_eq c h
    | cons d q => exact hq.head_eq c h
  strip_append_eq p t := by rw [List.append_assoc, hq.strip_append_eq, hm.strip_append_eq]

/-- In front of complete sequences a text may be cut. -/
theorem Silent.cut_append (hq : Silent q) (ht : q = [] → Cut t) : Cut (q ++ t) := by
  cases q with
  | nil => exact ht rfl
  | cons c q => exact cut_cons ((hq.head_eq c rfl) ▸ List.mem_cons_self)

theorem Silent.cut (hq : Silent q) : Cut q := by
  rw [← List.append_nil q]
  exact hq.cut_append fun _ => cut_nil

theorem Silent.strip_eq_nil (hq : Silent q) : p.strip q = [] := by
  rw [← List.append_nil q, hq.strip_append_eq, strip_nil]

theorem silent_switch (n : Nat) : Silent (switch n) where
  head_eq _ h := by cases h; rfl
  strip_append_eq p t := by
    have hdigits : ∀ c ∈ Numeral.ofNat n, p.isParameter c = true := by
      intro c hc
      obtain ⟨d, hd, rfl⟩ := List.mem_map.1 hc
      exact p.isParameter_digit d (Nat.isDigit_of_mem_toDigits (by decide) (by decide) hd)
    have hafter : p.after? (esc :: .scalar '[' :: (Numeral.ofNat n ++ .scalar 'm' :: t)) =
        some t := by
      rw [after?, if_pos ⟨rfl, rfl⟩, List.dropWhile_append_of_pos hdigits,
        List.dropWhile_cons_of_neg (Bool.eq_false_iff.1 p.isParameter_m),
        List.dropWhile_cons_of_neg (Bool.eq_false_iff.1 p.isMark_m)]
      exact if_pos p.isFinal_m
    rw [← strip_of_after? hafter, switch, List.append_assoc]
    rfl

/-! ## Texts that cannot be told apart -/

/-- Behind any text, both come to the same when their sequences are taken out. -/
def Alike (p : Pattern) (t u : Text) : Prop := ∀ v, p.strip (v ++ t) = p.strip (v ++ u)

theorem Alike.refl (t : Text) : p.Alike t t := fun _ => rfl

theorem Alike.trans (h : p.Alike t u) (h' : p.Alike u v) : p.Alike t v :=
  fun w => (h w).trans (h' w)

theorem Alike.append_left (h : p.Alike t u) (v : Text) : p.Alike (v ++ t) (v ++ u) := fun w => by
  rw [← List.append_assoc, ← List.append_assoc]
  exact h (w ++ v)

theorem Alike.cons (h : p.Alike t u) (c : CodePoint) : p.Alike (c :: t) (c :: u) :=
  h.append_left [c]

theorem Alike.strip_eq (h : p.Alike t u) : p.strip t = p.strip u := h []

/-- Complete sequences may be put in front of a cut. -/
theorem alike_silent_append (hq : Silent q) (ht : Cut t) : p.Alike (q ++ t) t := fun v => by
  rw [strip_append (hq.cut_append fun _ => ht), hq.strip_append_eq, strip_append ht]

/-- Complete sequences may be put behind others. -/
theorem alike_append_silent (hm : Silent m) (hne : m ≠ []) (hq : Silent q) :
    p.Alike (m ++ (q ++ t)) (m ++ t) := fun v => by
  rw [strip_append (hm.cut_append fun h => absurd h hne),
    strip_append (hm.cut_append fun h => absurd h hne), hm.strip_append_eq, hm.strip_append_eq,
    hq.strip_append_eq]

/-- Complete sequences may be put behind a line break. -/
theorem alike_break (hq : Silent q) :
    p.Alike (.scalar '\n' :: (q ++ t)) (.scalar '\n' :: t) := fun v => by
  have hcut (u : Text) : Cut (.scalar '\n' :: u) := cut_cons (by decide)
  rw [strip_append (hcut _), strip_append (hcut _), strip_cons_of_ne (by decide),
    strip_cons_of_ne (by decide), hq.strip_append_eq]

end Pattern

end ReportTree.Ansi
