import ReportTree.Text.Lines

/-!
# Leaving out lines

A text may be left without some of its lines. The other lines keep their breaks, so that they stay
lines of their own, as long as no empty line is among them: the end of one break and an empty line
after it may make another break.

* `Text.rawLines`: the lines of a text with their breaks.
* `Text.map_body_rawLines`: without their breaks they are the lines of the text.
* `Text.lines_keepLines`: the lines that are left.
-/

namespace ReportTree.Text

/-- A line and the break that ends it; no break where the text ends. -/
structure RawLine where
  body : Text
  ending : Text
  deriving DecidableEq

/-- The line as it stands in the text. -/
def RawLine.written (l : RawLine) : Text := l.body ++ l.ending

/-- The lines with their breaks of a text whose first line starts with `line`, read backwards. -/
def rawLinesFrom (line : Text) : Text → List RawLine
  | [] => if line.isEmpty then [] else [⟨line.reverse, []⟩]
  | [c] => if c.breaksLine then [⟨line.reverse, [c]⟩] else [⟨(c :: line).reverse, []⟩]
  | c :: d :: t =>
    if c = '\r' ∧ d = '\n' then ⟨line.reverse, [c, d]⟩ :: rawLinesFrom [] t
    else if c.breaksLine then ⟨line.reverse, [c]⟩ :: rawLinesFrom [] (d :: t)
    else rawLinesFrom (c :: line) (d :: t)

/-- The lines of a text, with their breaks. -/
def rawLines (t : Text) : List RawLine := rawLinesFrom [] t

/-- The text without the lines of which `keep` does not hold. -/
def keepLines (keep : Text → Bool) (t : Text) : Text :=
  (t.rawLines.filter fun l => keep l.body).flatMap RawLine.written

variable {line t : Text} {c : CodePoint} {l : RawLine} {ls : List RawLine}

theorem map_body_rawLinesFrom (line t : Text) :
    (rawLinesFrom line t).map RawLine.body = linesFrom line t := by
  fun_induction rawLinesFrom line t <;> simp_all [linesFrom]

/-- They have the lines of the text. -/
theorem map_body_rawLines (t : Text) : t.rawLines.map RawLine.body = t.lines :=
  map_body_rawLinesFrom [] t

/-! ## What lines look like -/

/-- There is no break within the line, and at most one at its end. -/
structure RawLine.WellFormed (l : RawLine) : Prop where
  unbroken : ∀ c ∈ l.body, c.breaksLine = false
  ending_eq : l.ending = [] ∨ l.ending = [.scalar '\r', .scalar '\n'] ∨
    ∃ c, c.breaksLine = true ∧ l.ending = [c]

theorem wellFormed_rawLinesFrom (hline : ∀ c ∈ line, c.breaksLine = false) :
    ∀ l ∈ rawLinesFrom line t, l.WellFormed := by
  have hreverse {line : Text} (h : ∀ c ∈ line, c.breaksLine = false) :
      ∀ c ∈ line.reverse, c.breaksLine = false := fun c hc => h c (List.mem_reverse.1 hc)
  fun_induction rawLinesFrom line t with
  | case1 => simp
  | case2 => exact List.forall_mem_singleton.2 ⟨hreverse hline, .inl rfl⟩
  | case3 line c hc =>
    exact List.forall_mem_singleton.2 ⟨hreverse hline, .inr (.inr ⟨c, hc, rfl⟩)⟩
  | case4 line c hc =>
    have hmore : ∀ x ∈ c :: line, x.breaksLine = false :=
      List.forall_mem_cons.2 ⟨Bool.eq_false_iff.2 hc, hline⟩
    exact List.forall_mem_singleton.2 ⟨hreverse hmore, .inl rfl⟩
  | case5 line c d t hcr ih =>
    obtain ⟨rfl, rfl⟩ := hcr
    exact List.forall_mem_cons.2 ⟨⟨hreverse hline, .inr (.inl rfl)⟩, ih (by simp)⟩
  | case6 line c d t _ hc ih =>
    exact List.forall_mem_cons.2 ⟨⟨hreverse hline, .inr (.inr ⟨c, hc, rfl⟩)⟩, ih (by simp)⟩
  | case7 line c d t _ hc ih =>
    exact ih (List.forall_mem_cons.2 ⟨Bool.eq_false_iff.2 hc, hline⟩)

/-- Only the last line may have no break. -/
theorem pairwise_rawLinesFrom (line t : Text) :
    (rawLinesFrom line t).Pairwise fun l _ => l.ending ≠ [] := by
  fun_induction rawLinesFrom line t <;> simp_all

/-! ## Reading lines -/

theorem linesFrom_cons (hc : c.breaksLine = false) (line t : Text) :
    linesFrom line (c :: t) = linesFrom (c :: line) t := by
  cases t with
  | nil => simp [linesFrom, hc]
  | cons d t =>
    have hcr : ¬(c = .scalar '\r' ∧ d = .scalar '\n') := by
      rintro ⟨rfl, -⟩
      cases hc
    rw [linesFrom, if_neg hcr, hc]
    rfl

/-- What is no break belongs to the line. -/
theorem linesFrom_append {body : Text} (hbody : ∀ c ∈ body, c.breaksLine = false) (line t : Text) :
    linesFrom line (body ++ t) = linesFrom (body.reverse ++ line) t := by
  induction body generalizing line with
  | nil => rfl
  | cons c body ih =>
    obtain ⟨hc, hbody⟩ := List.forall_mem_cons.1 hbody
    rw [List.cons_append, linesFrom_cons hc, ih hbody, List.reverse_cons, List.append_assoc,
      List.singleton_append]

theorem linesFrom_crlf (line t : Text) :
    linesFrom line (.scalar '\r' :: .scalar '\n' :: t) = line.reverse :: linesFrom [] t := by
  rw [linesFrom, if_pos ⟨rfl, rfl⟩]

/-- A break ends the line, unless a line feed follows a carriage return. -/
theorem linesFrom_break (hc : c.breaksLine = true)
    (ht : c = .scalar '\r' → t.head? ≠ some (.scalar '\n')) (line : Text) :
    linesFrom line (c :: t) = line.reverse :: linesFrom [] t := by
  cases t with
  | nil => simp [linesFrom, hc]
  | cons d t =>
    have hcr : ¬(c = .scalar '\r' ∧ d = .scalar '\n') := by
      rintro ⟨rfl, rfl⟩
      exact ht rfl rfl
    rw [linesFrom, if_neg hcr, hc]
    rfl

/-- Where lines are put together, none of them starts with a line feed, if there is something in
each of them. -/
theorem head?_flatMap_written (hls : ∀ l ∈ ls, l.WellFormed) (hne : ∀ l ∈ ls, l.body ≠ []) :
    (ls.flatMap RawLine.written).head? ≠ some (.scalar '\n') := by
  cases ls with
  | nil => exact Option.some_ne_none _ ∘ Eq.symm
  | cons l ls =>
    have hunbroken := (hls l List.mem_cons_self).unbroken
    obtain ⟨c, body, hbody⟩ := List.exists_cons_of_ne_nil (hne l List.mem_cons_self)
    rw [hbody] at hunbroken
    rw [List.flatMap_cons, RawLine.written, hbody, List.cons_append, List.cons_append,
      List.head?_cons, Ne, Option.some.injEq]
    rintro rfl
    cases hunbroken _ List.mem_cons_self

/-- Lines that are put together are read again, if there is something in each of them. -/
theorem lines_flatMap_written (hls : ∀ l ∈ ls, l.WellFormed) (hne : ∀ l ∈ ls, l.body ≠ [])
    (hending : ls.Pairwise fun l _ => l.ending ≠ []) :
    lines (ls.flatMap RawLine.written) = ls.map RawLine.body := by
  induction ls with
  | nil => rfl
  | cons l ls ih =>
    obtain ⟨hl, hls⟩ := List.forall_mem_cons.1 hls
    obtain ⟨hlne, hne⟩ := List.forall_mem_cons.1 hne
    obtain ⟨hlending, hending⟩ := List.pairwise_cons.1 hending
    have hhead := head?_flatMap_written hls hne
    have hrest := ih hls hne hending
    rw [lines] at hrest ⊢
    rw [List.flatMap_cons, RawLine.written, List.append_assoc, linesFrom_append hl.unbroken,
      List.append_nil, List.map_cons]
    rcases hl.ending_eq with h | h | ⟨c, hc, h⟩
    · have hnil : ls = [] := List.eq_nil_iff_forall_not_mem.2 fun m hm => hlending m hm h
      rw [h, hnil]
      simp [linesFrom, hlne]
    · rw [h, List.cons_append, List.singleton_append, linesFrom_crlf, hrest, List.reverse_reverse]
    · rw [h, List.singleton_append, linesFrom_break hc fun _ => hhead, hrest, List.reverse_reverse]

/-- The lines of the text that is left are those that were kept. -/
theorem lines_keepLines {keep : Text → Bool} (hkeep : keep [] = false) (t : Text) :
    (t.keepLines keep).lines = t.lines.filter keep := by
  have hwf : ∀ l ∈ t.rawLines, l.WellFormed := wellFormed_rawLinesFrom (by simp)
  rw [keepLines, lines_flatMap_written, ← map_body_rawLines, List.filter_map]
  · rfl
  · exact fun l hl => hwf l (List.mem_filter.1 hl).1
  · intro l hl hnil
    have hkept := (List.mem_filter.1 hl).2
    rw [hnil, hkeep] at hkept
    cases hkept
  · exact (pairwise_rawLinesFrom [] t).filter _

end ReportTree.Text
