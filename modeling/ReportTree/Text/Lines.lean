import ReportTree.Text.Basic

/-!
# Lines

Where a text breaks into lines. A carriage return before a line feed is one break with it. A file's
text has line feeds only: `Text.unifyNewlines` is applied when it is read.

* `Text.unifyNewlines_cons`, `Text.unifyNewlines_cr`, `Text.unifyNewlines_cons_cases`: what becomes
  of the first code point.
-/

namespace ReportTree

/-- Line feed, vertical tab, form feed, carriage return, the three information separators that end
a file, group or record, next line, line separator and paragraph separator. -/
def CodePoint.breaksLine (c : CodePoint) : Bool :=
  let n := c.toNat
  (0x0A ≤ n && n ≤ 0x0D) || (0x1C ≤ n && n ≤ 0x1E) || n == 0x85 || n == 0x2028 || n == 0x2029

namespace Text

/-- The lines of a text whose first line starts with `line`, read backwards. -/
def linesFrom (line : Text) : Text → List Text
  | [] => if line.isEmpty then [] else [line.reverse]
  | [c] => if c.breaksLine then [line.reverse] else [(c :: line).reverse]
  | c :: d :: t =>
    if c = '\r' ∧ d = '\n' then line.reverse :: linesFrom [] t
    else if c.breaksLine then line.reverse :: linesFrom [] (d :: t)
    else linesFrom (c :: line) (d :: t)

/-- The lines of a text, without their breaks. Nothing follows a break at the end. -/
def lines (t : Text) : List Text := linesFrom [] t

/-- Every line break of the kinds CR LF and CR becomes a line feed. -/
def unifyNewlines : Text → Text
  | [] => []
  | [c] => [if c = '\r' then '\n' else c]
  | c :: d :: t =>
    if c = '\r' then
      if d = '\n' then '\n' :: unifyNewlines t else '\n' :: unifyNewlines (d :: t)
    else c :: unifyNewlines (d :: t)

theorem unifyNewlines_cons {c : CodePoint} (hc : c ≠ .scalar '\r') (t : Text) :
    unifyNewlines (c :: t) = c :: unifyNewlines t := by
  cases t with
  | nil => exact congrArg (fun x => [x]) (if_neg hc)
  | cons d t => exact if_neg hc

/-- A carriage return becomes a line feed, the one that follows it if there is one. -/
theorem unifyNewlines_cr (t : Text) :
    unifyNewlines (.scalar '\r' :: t) = unifyNewlines t ∧ t.head? = some (.scalar '\n') ∨
      unifyNewlines (.scalar '\r' :: t) = .scalar '\n' :: unifyNewlines t := by
  cases t with
  | nil => exact .inr rfl
  | cons d t =>
    by_cases hd : d = .scalar '\n'
    · subst hd
      exact .inl ⟨(unifyNewlines_cons (by decide) t).symm, rfl⟩
    · exact .inr (by rw [unifyNewlines, if_pos rfl, if_neg hd])

/-- The first code point stays as it is unless it is a carriage return, which becomes a line feed. -/
theorem unifyNewlines_cons_cases (c : CodePoint) (t : Text) :
    (c = .scalar '\r' ∧ ∃ u, unifyNewlines (c :: t) = .scalar '\n' :: u) ∨
      (c ≠ .scalar '\r' ∧ unifyNewlines (c :: t) = c :: unifyNewlines t) := by
  by_cases hc : c = .scalar '\r'
  · subst hc
    refine .inl ⟨rfl, ?_⟩
    rcases unifyNewlines_cr t with ⟨h, ht⟩ | h
    · obtain ⟨t, rfl⟩ := List.head?_eq_some_iff.1 ht
      exact ⟨_, h.trans (unifyNewlines_cons (by decide) t)⟩
    · exact ⟨_, h⟩
  · exact .inr ⟨hc, unifyNewlines_cons hc t⟩

end Text

end ReportTree
