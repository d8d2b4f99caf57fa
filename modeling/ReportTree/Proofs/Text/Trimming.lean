import Mathlib.Data.List.DropRight
import ReportTree.Text.Blank

/-!
# Trimming

What `Text.trim` leaves has no blank at either end, and a text that has none there is left as it is.

* `Text.trimmed_trim`, `Text.Trimmed.trim_eq`: trimming ends with the trimmed texts and keeps them.
* `Text.trim_eq_nil_iff`: nothing is left of blanks alone.
* `Text.trimEnd_append`: what stands before a text that is not blank is out of reach.
-/

namespace ReportTree.Text

variable {t : Text}

/-- No blank stands at either end. -/
def Trimmed (t : Text) : Prop :=
  (∀ c ∈ t.head?, c.isBlank = false) ∧ ∀ c ∈ t.getLast?, c.isBlank = false

instance (t : Text) : Decidable t.Trimmed :=
  inferInstanceAs (Decidable (_ ∧ _))

/-! ## At the front -/

theorem head?_trimStart (t : Text) : ∀ c ∈ t.trimStart.head?, c.isBlank = false := by
  intro c hc
  have h := List.head?_dropWhile_not CodePoint.isBlank t
  rw [trimStart] at hc
  rwa [Option.mem_def.1 hc] at h

theorem trimStart_eq_self (h : ∀ c ∈ t.head?, c.isBlank = false) : t.trimStart = t := by
  cases t with
  | nil => rfl
  | cons c t => exact List.dropWhile_cons_of_neg (by simp [h c rfl])

/-! ## At the end -/

theorem getLast?_trimEnd (t : Text) : ∀ c ∈ t.trimEnd.getLast?, c.isBlank = false := by
  intro c hc
  rw [trimEnd, List.getLast?_reverse] at hc
  exact head?_trimStart _ c hc

theorem trimEnd_eq_self (h : ∀ c ∈ t.getLast?, c.isBlank = false) : t.trimEnd = t := by
  rw [← List.head?_reverse] at h
  have hreverse : t.reverse.dropWhile CodePoint.isBlank = t.reverse := trimStart_eq_self h
  rw [trimEnd, hreverse, List.reverse_reverse]

/-- What stands before a text that is not blank stays. -/
theorem trimEnd_append (h : t.trimEnd ≠ []) (s : Text) : (s ++ t).trimEnd = s ++ t.trimEnd := by
  have hleft : (t.reverse.dropWhile CodePoint.isBlank).isEmpty = false := by
    rw [List.isEmpty_eq_false_iff]
    exact fun hnil => h (by rw [trimEnd, hnil, List.reverse_nil])
  rw [trimEnd, List.reverse_append, List.dropWhile_append, hleft, if_neg Bool.false_ne_true,
    List.reverse_append, List.reverse_reverse, trimEnd]

/-! ## At both ends -/

theorem trimmed_trim (t : Text) : t.trim.Trimmed := by
  refine ⟨fun c hc => head?_trimStart t c ?_, getLast?_trimEnd _⟩
  obtain ⟨u, hu⟩ := List.head?_eq_some_iff.1 hc
  obtain ⟨v, hv⟩ : t.trim <+: t.trimStart := List.rdropWhile_prefix CodePoint.isBlank _
  rw [← hv, hu]
  rfl

theorem Trimmed.trim_eq (h : t.Trimmed) : t.trim = t := by
  rw [trim, trimStart_eq_self h.1, trimEnd_eq_self h.2]

theorem trim_trim (t : Text) : t.trim.trim = t.trim := t.trimmed_trim.trim_eq

theorem length_trim_le (t : Text) : t.trim.length ≤ t.length := by
  have hend : t.trim.length ≤ t.trimStart.length := (List.rdropWhile_prefix _ _).length_le
  exact Nat.le_trans hend (List.dropWhile_suffix _).length_le

/-- Nothing is left of blanks, and something of every other text. -/
theorem trim_eq_nil_iff : t.trim = [] ↔ ∀ c ∈ t, c.isBlank = true := by
  have hend : t.trim = [] ↔ ∀ c ∈ t.trimStart, c.isBlank = true := List.rdropWhile_eq_nil_iff
  rw [hend]
  constructor
  · intro h
    -- A text that begins with no blank is not made of blanks.
    have hnil : t.trimStart = [] := by
      refine List.head?_eq_none_iff.1 (Option.eq_none_iff_forall_not_mem.2 fun c hc => ?_)
      have hblank := h c (List.mem_of_mem_head? hc)
      rw [head?_trimStart t c hc] at hblank
      cases hblank
    exact List.dropWhile_eq_nil_iff.1 hnil
  · exact fun h c hc => h c ((List.dropWhile_suffix _).mem hc)

end ReportTree.Text
