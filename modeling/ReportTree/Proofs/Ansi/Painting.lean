import ReportTree.Proofs.Ansi.Stripping

/-!
# Painting only adds sequences

A text in a style is the text with complete sequences put in, each in front of a cut or behind a
complete sequence or a line break, so that no sequence of the text is broken or completed.

* `Style.alike_replaceFrom`, `Style.alike_aroundResets`, `Style.alike_aroundBreaks`: the three ways
  in which painting keeps a style.
* `Style.strip_paint`: without its sequences, a painted text is the text without its own.
-/

namespace ReportTree.Ansi.Style

open Pattern

variable {p : Pattern} {old new before after : Text}

theorem silent_flatMap (s : Style) (number : Code → Nat) :
    Silent (s.flatMap fun c => switch (number c)) := by
  induction s with
  | nil => exact silent_nil
  | cons c s ih => exact (silent_switch _).append ih

theorem silent_opening (s : Style) : Silent s.opening := silent_flatMap s Code.on

theorem silent_closing (s : Style) : Silent s.closing := silent_flatMap s Code.off

/-! ## Codes that are switched on again -/

/-- Complete sequences are put behind others wherever these occur. -/
theorem alike_replaceFrom (hold : Silent old) (hne : old ≠ []) (hnew : Silent new) (skip : Nat)
    (t : Text) : p.Alike (replaceFrom old (old ++ new) skip t) (t.drop skip) := by
  induction t generalizing skip with
  | nil =>
    rw [List.drop_nil]
    cases skip <;> exact .refl []
  | cons c t ih =>
    cases skip with
    | succ skip => exact ih skip
    | zero =>
      rw [replaceFrom]
      split
      · next hprefix =>
        obtain ⟨rest, hrest⟩ := List.isPrefixOf_iff_prefix.1 hprefix
        have hdrop : t.drop (old.length - 1) = rest := by
          obtain ⟨d, old, rfl⟩ := List.exists_cons_of_ne_nil hne
          rw [List.cons_append, List.cons.injEq] at hrest
          rw [← hrest.2, List.length_cons, Nat.add_sub_cancel, List.drop_left]
        have hnext : p.Alike _ rest := hdrop ▸ ih (old.length - 1)
        rw [List.drop_zero, ← hrest, List.append_assoc]
        exact (alike_append_silent hold hne hnew).trans (hnext.append_left old)
      · exact (ih 0).cons c

theorem alike_reopen (c : Code) (t : Text) : p.Alike (reopen c t) t :=
  alike_replaceFrom (silent_switch _) (List.cons_ne_nil _ _) (silent_switch _) 0 t

theorem alike_foldl_reopen (s : Style) (t : Text) :
    p.Alike (s.foldl (fun t c => reopen c t) t) t := by
  induction s generalizing t with
  | nil => exact .refl t
  | cons c s ih => exact (ih (reopen c t)).trans (alike_reopen c t)

/-! ## Resets -/

theorem exists_of_untilReset? {t : Text} {n : Nat} (h : untilReset? t = some n) :
    ∃ u rest, t = u ++ (reset ++ rest) ∧ n = (u ++ reset).length := by
  induction t generalizing n with
  | nil => cases h
  | cons c t ih =>
    rw [untilReset?] at h
    split at h
    · next hprefix =>
      cases h
      obtain ⟨rest, hrest⟩ := List.isPrefixOf_iff_prefix.1 hprefix
      exact ⟨[], rest, hrest.symm, rfl⟩
    · split at h
      · cases h
      · obtain ⟨k, hk, rfl⟩ := Option.map_eq_some_iff.1 h
        obtain ⟨u, rest, rfl, rfl⟩ := ih hk
        exact ⟨c :: u, rest, rfl, rfl⟩

/-- A span goes from a reset to another one. -/
theorem exists_of_resetSpan? {t : Text} {n : Nat} (h : resetSpan? t = some n) :
    ∃ u rest, t = (reset ++ u) ++ (reset ++ rest) ∧ n = ((reset ++ u) ++ reset).length := by
  unfold resetSpan? at h
  split at h
  · next hprefix =>
    obtain ⟨k, hk, rfl⟩ := Option.map_eq_some_iff.1 h
    obtain ⟨after, hafter⟩ := List.isPrefixOf_iff_prefix.1 hprefix
    subst hafter
    rw [List.drop_left] at hk
    obtain ⟨u, rest, rfl, rfl⟩ := exists_of_untilReset? hk
    refine ⟨u, rest, (List.append_assoc ..).symm, ?_⟩
    simp only [List.length_append]
    omega
  · cases h

/-- A span is left alone to its end. -/
theorem aroundResets_length {u : Text} (hu : u ≠ []) (t : Text) :
    aroundResets before after u.length (u ++ t) =
      u ++ (after ++ aroundResets before after 0 t) := by
  induction u with
  | nil => exact absurd rfl hu
  | cons c u ih =>
    cases u with
    | nil => rfl
    | cons d u => exact congrArg (c :: ·) (ih (List.cons_ne_nil d u))

/-- A span gets one text in front of it and the other behind it. -/
theorem aroundResets_span {u rest : Text} (h : resetSpan? ((reset ++ u) ++ (reset ++ rest)) =
      some ((reset ++ u) ++ reset).length) :
    aroundResets before after 0 ((reset ++ u) ++ (reset ++ rest)) =
      before ++ ((reset ++ u) ++ (reset ++ (after ++ aroundResets before after 0 rest))) := by
  -- The first code point of the span is copied by hand, the others are left.
  obtain ⟨w, hw, hne⟩ : ∃ w, (reset ++ u) ++ reset = esc :: w ∧ w ≠ [] :=
    ⟨_, rfl, List.cons_ne_nil _ _⟩
  have htext (t : Text) : (reset ++ u) ++ (reset ++ t) = esc :: (w ++ t) := by
    rw [← List.append_assoc, hw, List.cons_append]
  rw [htext, hw] at h
  rw [htext, htext, aroundResets, h]
  dsimp only
  rw [List.length_cons, Nat.add_sub_cancel, aroundResets_length hne]

theorem alike_aroundResets (hbefore : Silent before) (hafter : Silent after) (t : Text) :
    p.Alike (aroundResets before after 0 t) t := by
  induction hn : t.length using Nat.strongRecOn generalizing t with
  | _ n ih =>
    subst hn
    cases hspan : resetSpan? t with
    | none =>
      cases t with
      | nil => exact .refl []
      | cons c t =>
        rw [aroundResets, hspan]
        exact (ih _ (Nat.lt_succ_self _) t rfl).cons c
    | some n =>
      obtain ⟨u, rest, rfl, rfl⟩ := exists_of_resetSpan? hspan
      have hreset : reset ≠ [] := List.cons_ne_nil _ _
      have hlt : rest.length < ((reset ++ u) ++ (reset ++ rest)).length := by
        have := List.length_pos_iff.2 hreset
        simp only [List.length_append]
        omega
      have hcut (t : Text) : Cut ((reset ++ u) ++ t) := by
        rw [List.append_assoc]
        exact (silent_switch 0).cut_append fun h => absurd h hreset
      rw [aroundResets_span hspan]
      refine (alike_silent_append hbefore (hcut _)).trans (Alike.append_left ?_ _)
      exact (alike_append_silent (silent_switch 0) hreset hafter).trans
        ((ih _ hlt rest rfl).append_left reset)

/-! ## Line breaks -/

theorem alike_aroundBreaks (hbefore : Silent before) (hafter : Silent after) (t : Text) :
    p.Alike (aroundBreaks before after t) t := by
  fun_induction aroundBreaks before after t with
  | case1 t ih =>
    rw [List.append_assoc, List.append_assoc]
    refine (alike_silent_append hbefore (cut_cons (by decide))).trans ?_
    exact ((alike_break hafter).trans (ih.cons _)).cons _
  | case2 t ih =>
    rw [List.append_assoc, List.append_assoc]
    refine (alike_silent_append hbefore (cut_cons (by decide))).trans ?_
    exact (alike_break hafter).trans (ih.cons _)
  | case3 c t _ _ ih => exact ih.cons c
  | case4 => exact .refl []

/-! ## Painting -/

/-- Without its sequences, a painted text is the text without its own. -/
theorem strip_paint (s : Style) (t : Text) : p.strip (s.paint t) = p.strip t := by
  have hreopened : p.Alike (if t.contains esc then s.foldl (fun t c => reopen c t) t else t) t := by
    split
    · exact alike_foldl_reopen s t
    · exact .refl t
  have hresets := alike_aroundResets (p := p) (silent_closing s) (silent_opening s)
    (if t.contains esc then s.foldl (fun t c => reopen c t) t else t)
  have hbreaks := alike_aroundBreaks (p := p) (silent_closing s) (silent_opening s)
    (aroundResets s.closing s.opening 0
      (if t.contains esc then s.foldl (fun t c => reopen c t) t else t))
  rw [paint, List.append_assoc, (silent_opening s).strip_append_eq,
    strip_append (silent_closing s).cut, (silent_closing s).strip_eq_nil, List.append_nil]
  exact ((hbreaks.trans hresets).trans hreopened).strip_eq

end ReportTree.Ansi.Style
