/-!
# Text

A text is a list of code points. A code point is a Unicode scalar value or one half of a surrogate
pair: documents may name such a half by itself, and it is kept as it is.

* `CodePoint.toNat_lt`, `CodePoint.ofNat_toNat`: code points are numbered from 0 to `0x10FFFF`.
* `Text.le_total`, `Text.le_trans`, `Text.le_antisymm`: texts are ordered by these numbers.
* `Text.splitOn_join`: pieces without the separator that are joined by it are found again.
-/

namespace ReportTree

/-- A Unicode scalar value, or half of a surrogate pair. -/
inductive CodePoint where
  | scalar (c : Char)
  | high (i : Fin 1024)
  | low (i : Fin 1024)
  deriving DecidableEq, Inhabited

/-- A text, code point by code point. -/
abbrev Text := List CodePoint

namespace CodePoint

/-- The number of a code point. -/
def toNat : CodePoint → Nat
  | scalar c => c.toNat
  | high i => 0xD800 + i
  | low i => 0xDC00 + i

/-- The code point with number `n`. -/
def ofNat (n : Nat) : CodePoint :=
  if h : 0xD800 ≤ n ∧ n < 0xDC00 then high ⟨n - 0xD800, by omega⟩
  else if h : 0xDC00 ≤ n ∧ n < 0xE000 then low ⟨n - 0xDC00, by omega⟩
  else scalar (Char.ofNat n)

/-- The supplementary character that a surrogate pair encodes. -/
def ofPair (h l : Fin 1024) : CodePoint :=
  scalar (Char.ofNat (0x10000 + 1024 * h + l))

theorem toNat_lt (c : CodePoint) : c.toNat < 0x110000 := by
  cases c with
  | scalar c => have := c.valid; simp only [toNat, Char.toNat, UInt32.isValidChar,
      Nat.isValidChar] at *; omega
  | high i => simp only [toNat]; omega
  | low i => simp only [toNat]; omega

theorem ofNat_toNat (c : CodePoint) : ofNat c.toNat = c := by
  cases c with
  | scalar c =>
    have := c.valid
    simp only [UInt32.isValidChar, Nat.isValidChar] at this
    have h1 : ¬(0xD800 ≤ c.toNat ∧ c.toNat < 0xDC00) := by simp only [Char.toNat]; omega
    have h2 : ¬(0xDC00 ≤ c.toNat ∧ c.toNat < 0xE000) := by simp only [Char.toNat]; omega
    simp [ofNat, toNat, h1, h2, Char.ofNat_toNat]
  | high i =>
    have h : 0xD800 ≤ 0xD800 + i.1 ∧ 0xD800 + i.1 < 0xDC00 := by omega
    simp [ofNat, toNat, h]
  | low i =>
    have h2 : 0xDC00 ≤ 0xDC00 + i.1 ∧ 0xDC00 + i.1 < 0xE000 := by omega
    simp [ofNat, toNat, h2]

theorem toNat_inj {a b : CodePoint} : a.toNat = b.toNat ↔ a = b :=
  ⟨fun h => by rw [← ofNat_toNat a, h, ofNat_toNat], fun h => h ▸ rfl⟩

end CodePoint

instance : Coe Char CodePoint := ⟨CodePoint.scalar⟩

namespace Text

/-- The text of a string. -/
def ofString (s : String) : Text := s.toList.map .scalar

instance : Coe String Text := ⟨ofString⟩

/-- The string with this text; a half of a surrogate pair is shown as U+FFFD. -/
def toString (t : Text) : String :=
  String.ofList (t.map fun
    | .scalar c => c
    | _ => '\uFFFD')

/-- `a` comes before `b`, or is `b`, in the order of code points. -/
def le : Text → Text → Bool
  | [], _ => true
  | _ :: _, [] => false
  | x :: a, y :: b => if x = y then le a b else decide (x.toNat < y.toNat)

theorem le_total (a b : Text) : (a.le b || b.le a) = true := by
  induction a generalizing b with
  | nil => simp [le]
  | cons x a ih =>
    cases b with
    | nil => simp [le]
    | cons y b =>
      by_cases h : x = y
      · subst h; simpa [le] using ih b
      · have hn : x.toNat ≠ y.toNat := fun e => h (CodePoint.toNat_inj.1 e)
        simp only [le, h, Ne.symm h, if_false, Bool.or_eq_true, decide_eq_true_eq]
        omega

theorem le_trans (a b c : Text) (hab : a.le b = true) (hbc : b.le c = true) : a.le c = true := by
  induction a generalizing b c with
  | nil => rfl
  | cons x a ih =>
    cases b with
    | nil => simp [le] at hab
    | cons y b =>
      cases c with
      | nil => simp [le] at hbc
      | cons z c =>
        grind [le]

theorem le_antisymm {a b : Text} (hab : a.le b = true) (hba : b.le a = true) : a = b := by
  induction a generalizing b with
  | nil =>
    cases b with
    | nil => rfl
    | cons y b => simp [le] at hba
  | cons x a ih =>
    cases b with
    | nil => simp [le] at hab
    | cons y b => grind [le]

/-- The pieces between the occurrences of `sep`; a text without it is its only piece. -/
def splitOn (sep : CodePoint) : Text → List Text
  | [] => [[]]
  | c :: t =>
    match splitOn sep t with
    | [] => [[c]]
    | piece :: pieces => if c = sep then [] :: piece :: pieces else (c :: piece) :: pieces

/-- The pieces with `sep` between them. -/
def join (sep : Text) : List Text → Text
  | [] => []
  | [t] => t
  | t :: ts => t ++ sep ++ join sep ts

theorem splitOn_ne_nil (sep : CodePoint) (t : Text) : splitOn sep t ≠ [] := by
  cases t with
  | nil => simp [splitOn]
  | cons c t => unfold splitOn; split <;> (try split) <;> simp

theorem not_mem_of_mem_splitOn {sep : CodePoint} {t piece : Text} (h : piece ∈ splitOn sep t) :
    sep ∉ piece := by
  induction t generalizing piece with
  | nil =>
    rw [splitOn, List.mem_singleton] at h
    subst h
    exact List.not_mem_nil
  | cons c t ih =>
    unfold splitOn at h
    split at h
    · exact absurd ‹_› (splitOn_ne_nil sep t)
    · next first pieces heq =>
      rw [heq] at ih
      split at h
      · rcases List.mem_cons.1 h with rfl | h
        · exact List.not_mem_nil
        · exact ih h
      · next hc =>
        rcases List.mem_cons.1 h with rfl | h
        · rw [List.mem_cons, not_or]
          exact ⟨Ne.symm hc, ih List.mem_cons_self⟩
        · exact ih (List.mem_cons_of_mem _ h)

theorem splitOn_of_not_mem {sep : CodePoint} {t : Text} (h : sep ∉ t) : splitOn sep t = [t] := by
  induction t with
  | nil => rfl
  | cons c t ih =>
    rw [List.mem_cons, not_or] at h
    rw [splitOn, ih h.2]
    exact if_neg (Ne.symm h.1)

theorem splitOn_append_cons {sep : CodePoint} {t : Text} (h : sep ∉ t) (u : Text) :
    splitOn sep (t ++ sep :: u) = t :: splitOn sep u := by
  induction t with
  | nil =>
    rw [List.nil_append, splitOn]
    split
    · exact absurd ‹_› (splitOn_ne_nil sep u)
    · next piece pieces heq => rw [if_pos rfl, heq]
  | cons c t ih =>
    rw [List.mem_cons, not_or] at h
    rw [List.cons_append, splitOn, ih h.2]
    exact if_neg (Ne.symm h.1)

/-- Pieces without the separator can be told apart again. -/
theorem splitOn_join {sep : CodePoint} {ts : List Text} (hne : ts ≠ []) (h : ∀ t ∈ ts, sep ∉ t) :
    splitOn sep (join [sep] ts) = ts := by
  induction ts with
  | nil => exact absurd rfl hne
  | cons t ts ih =>
    cases ts with
    | nil => exact splitOn_of_not_mem (h t List.mem_cons_self)
    | cons u us =>
      have hrest := ih (List.cons_ne_nil u us) fun x hx => h x (List.mem_cons_of_mem t hx)
      rw [join, List.append_assoc, List.singleton_append,
        splitOn_append_cons (h t List.mem_cons_self), hrest]
      exact List.cons_ne_nil u us

/-- Removes `start` from the front of a text that begins with it. -/
def dropStart? : (start : Text) → Text → Option Text
  | [], t => some t
  | _ :: _, [] => none
  | s :: start, c :: t => if s = c then dropStart? start t else none

theorem dropStart?_eq_some_iff {start t rest : Text} :
    dropStart? start t = some rest ↔ t = start ++ rest := by
  induction start generalizing t with
  | nil => simp [dropStart?]
  | cons s start ih =>
    cases t with
    | nil => simp [dropStart?]
    | cons c t =>
      by_cases h : s = c
      · simp [dropStart?, h, ih]
      · simp [dropStart?, h, Ne.symm h]

/-- `n` copies of a text, one after the other. -/
def repeated (n : Nat) (t : Text) : Text := (List.replicate n t).flatten

end Text

end ReportTree
