import Mathlib.Data.List.Chain
import ReportTree.Proofs.Failure.Cleaning

/-!
# Where cleaning stops

Cleaning passes over failures that group nothing and say what their cause says. It stops at the first
one that does not, or where the causes run in a circle. If they do not, cleaning once more changes
nothing.

* `Failure.SaysTheSame`: a failure has the message of another one, or its default text.
* `Cleans.unique`: the way of cleaning ends in one place only.
* `Cleans.exists_passed`: the failures on that way.
* `clean_stops`: where cleaning stops, and what it passed over.
-/

namespace ReportTree

/-- The message of `x`, or the qualified name of its class if it has none, is the message of `c` or
the default text of `c`. -/
def Failure.SaysTheSame (x c : Failure) : Prop :=
  c.message? = some (x.message?.getD x.kind.fullName) ∨
    c.defaultText = x.message?.getD x.kind.fullName

theorem Failure.repeats_iff {x c : Failure} : x.repeats c = true ↔ x.SaysTheSame c := by
  rw [repeats, SaysTheSame, headline, Bool.or_eq_true, beq_iff_eq, beq_iff_eq]
  exact or_congr eq_comm eq_comm

namespace Failures

/-- The failures `passed` are passed over from `e` on, one after the other, and then comes `r`, where
this ends. -/
structure StopsAt (g : Failures) (e r : FailureId) (passed : List FailureId) : Prop where
  head_eq : (passed ++ [r]).head? = some e
  /-- Each is the cause of the one before it. -/
  causes : (passed ++ [r]).IsChain fun x c => g.cause? x = some c
  nodup : (passed ++ [r]).Nodup
  repeats : ∀ x ∈ passed, g.members x = [] ∧
    ∃ c, g.cause? x = some c ∧ (g.get x).SaysTheSame (g.get c)
  stop : g.cause? r = none ∨ g.members r ≠ [] ∨
    ∃ c, g.cause? r = some c ∧ (¬(g.get r).SaysTheSame (g.get c) ∨ c ∈ passed ++ [r])

/-- `c` is the cause of `e`. -/
abbrev Causes (g : Failures) (e c : FailureId) : Prop := g.cause? e = some c

variable {g : Failures} {visited passed : List FailureId} {e c r r' : FailureId}

theorem repeats_iff : g.Repeats e c ↔
    g.cause? e = some c ∧ g.members e = [] ∧ (g.get e).SaysTheSame (g.get c) := by
  rw [Repeats, isWrapperOf, Bool.and_eq_true, List.isEmpty_iff, Failure.repeats_iff]

/-- A failure repeats no other one than its cause. -/
theorem Repeats.unique {d : FailureId} (hc : g.Repeats e c) (hd : g.Repeats e d) : c = d :=
  Option.some_inj.1 (hc.1.symm.trans hd.1)

theorem Cleans.unique (h : g.Cleans visited e r) (h' : g.Cleans visited e r') : r = r' := by
  induction h with
  | stop hstop =>
    cases h' with
    | stop => rfl
    | pass he hc => exact absurd (hstop _ he) hc
  | pass he hc _ ih =>
    cases h' with
    | stop hstop => exact absurd (hstop _ he) hc
    | pass he' _ h' =>
      obtain rfl := he.unique he'
      exact ih h'

/-- The failures that the way leads over: each one repeats the next one, none was met before, and
none comes twice. If the last one repeats its cause, this was met. -/
theorem Cleans.exists_passed (h : g.Cleans visited e r) (he : e ∈ visited) :
    ∃ passed, (passed ++ [r]).head? = some e ∧ (passed ++ [r]).IsChain g.Repeats ∧
      (passed ++ [r]).Nodup ∧ (∀ x ∈ (passed ++ [r]).tail, x ∉ visited) ∧
      (∀ x ∈ passed, ∃ c, g.Repeats x c) ∧
      ∀ c, g.Repeats r c → c ∈ visited ∨ c ∈ passed ++ [r] := by
  induction h with
  | @stop visited e hstop =>
    exact ⟨[], rfl, .singleton e, List.nodup_singleton e, by simp, by simp,
      fun c hc => .inl (hstop c hc)⟩
  | @pass visited e c r hec hc h ih =>
    obtain ⟨passed, hhead, hchain, hnodup, hnew, hrepeats, hstop⟩ := ih List.mem_cons_self
    obtain ⟨rest, hrest⟩ := List.head?_eq_some_iff.1 hhead
    refine ⟨e :: passed, rfl, ?_⟩
    rw [List.cons_append, hrest]
    rw [hrest] at hchain hnodup hnew hstop
    have hunmet : ∀ x ∈ c :: rest, x ∉ visited := by
      intro x hx
      rcases List.mem_cons.1 hx with rfl | hx
      · exact hc
      · exact fun h => hnew x hx (List.mem_cons_of_mem c h)
    refine ⟨.cons_cons hec hchain, List.nodup_cons.2 ⟨fun h => hunmet e h he, hnodup⟩, hunmet,
      List.forall_mem_cons.2 ⟨⟨c, hec⟩, hrepeats⟩, fun d hd => ?_⟩
    rcases hstop d hd with hmet | hway
    · rcases List.mem_cons.1 hmet with rfl | hmet
      · exact .inr (List.mem_cons_of_mem e List.mem_cons_self)
      · exact .inl hmet
    · exact .inr (List.mem_cons_of_mem e hway)

theorem Cleans.exists_stopsAt (h : g.Cleans [e] e r) : ∃ passed, g.StopsAt e r passed := by
  obtain ⟨passed, hhead, hchain, hnodup, -, hrepeats, hstop⟩ := h.exists_passed List.mem_cons_self
  refine ⟨passed, hhead, hchain.imp fun _ _ h => h.1, hnodup, fun x hx => ?_, ?_⟩
  · obtain ⟨c, hc⟩ := hrepeats x hx
    obtain ⟨hcause, hmembers, hsame⟩ := repeats_iff.1 hc
    exact ⟨hmembers, c, hcause, hsame⟩
  · cases hcause : g.cause? r with
    | none => exact .inl rfl
    | some c =>
      by_cases hmembers : g.members r = []
      · refine .inr (.inr ⟨c, rfl, ?_⟩)
        by_cases hsame : (g.get r).SaysTheSame (g.get c)
        · rcases hstop c (repeats_iff.2 ⟨hcause, hmembers, hsame⟩) with hmet | hway
          · rw [List.mem_singleton.1 hmet]
            exact .inr (List.mem_of_head? hhead)
          · exact .inr hway
        · exact .inl hsame
      · exact .inr (.inl hmembers)

/-- The way leads along causes to where it ends. -/
theorem StopsAt.reaches (h : g.StopsAt e r passed) {x : FailureId} (hx : x ∈ passed ++ [r]) :
    Relation.ReflTransGen g.Causes x r := by
  refine h.causes.backwards_induction (Relation.ReflTransGen g.Causes · r) _ (fun _ _ hc hr => ?_)
    (fun hne => ?_) x hx
  · exact .head hc hr
  · rw [List.getLast_append_singleton]

/-- Where no causes run in a circle, cleaning leaves the failure as it is where it stops. -/
theorem StopsAt.clean_eq (h : g.StopsAt e r passed)
    (hacyclic : ∀ x, Relation.ReflTransGen g.Causes e x → ¬Relation.TransGen g.Causes x x) :
    g.clean r = r := by
  refine (cleans_clean g r).unique (.stop fun c hc => ?_)
  obtain ⟨hcause, hmembers, hsame⟩ := repeats_iff.1 hc
  have hway : c ∈ passed ++ [r] := by
    rcases h.stop with hnone | hsome | ⟨d, hd, hdifferent | hmet⟩
    · rw [hnone] at hcause
      cases hcause
    · exact absurd hmembers hsome
    · obtain rfl := Option.some_inj.1 (hcause.symm.trans hd)
      exact absurd hsame hdifferent
    · obtain rfl := Option.some_inj.1 (hcause.symm.trans hd)
      exact hmet
  -- The cause leads back to the failure then.
  exact absurd (.head' hcause (h.reaches hway)) (hacyclic r (h.reaches (List.mem_of_head? h.head_eq)))

/-- Cleaning comes to an end, and in one place only. What it passes over groups nothing and says what
its cause says. The failure that it stops at has no cause, groups others or does not say what its
cause says, or else its cause was met on the way. Where no causes run in a circle, cleaning a failure
that was cleaned changes nothing. -/
theorem clean_stops (g : Failures) (e : FailureId) :
    (∀ r, g.Cleans [e] e r ↔ r = g.clean e) ∧
      (∃ passed, g.StopsAt e (g.clean e) passed) ∧
      ((∀ x, Relation.ReflTransGen g.Causes e x → ¬Relation.TransGen g.Causes x x) →
        g.clean (g.clean e) = g.clean e) := by
  have hcleans := cleans_clean g e
  obtain ⟨passed, hstops⟩ := hcleans.exists_stopsAt
  refine ⟨fun r => ⟨fun h => h.unique hcleans, ?_⟩, ⟨passed, hstops⟩, hstops.clean_eq⟩
  rintro rfl
  exact hcleans

/-- A failure with two wrappers, the outer one of which names the class as well. -/
def wrapped : Failures where
  items := #[
    { kind := .named "RuntimeError", arguments := [.text "ValueError: No target"], cause := some 1 },
    { kind := .named "RuntimeError", arguments := [.text "ValueError: No target"],
      context := some 2 },
    { kind := .named "ValueError", arguments := [.text "No target"] }]

/-- Both wrappers are passed over, and no causes run in a circle. -/
theorem clean_stops_wrapped :
    (∃ passed, wrapped.StopsAt 0 2 passed) ∧
      (∀ x, Relation.ReflTransGen wrapped.Causes 0 x → ¬Relation.TransGen wrapped.Causes x x) ∧
      wrapped.clean (wrapped.clean 0) = 2 := by
  have hclean : wrapped.clean 0 = 2 := by decide +kernel
  -- Every cause has a larger number than what it caused.
  have hlt : wrapped.Causes ≤ fun x c => x < c
    | 0, c, h => by
      cases show some 1 = some c from h
      exact Nat.zero_lt_one
    | 1, c, h => by
      cases show some 2 = some c from h
      exact Nat.one_lt_two
    | 2, c, h => by cases show none = some c from h
    | x + 3, c, h => by
      rw [Causes, cause?_of_size_le (Nat.le_add_left 3 x)] at h
      cases h
  have hacyclic (x : FailureId) : ¬Relation.TransGen wrapped.Causes x x := fun h =>
    Nat.lt_irrefl x (Relation.transGen_minimal hlt x x h)
  obtain ⟨-, hstops, hagain⟩ := clean_stops wrapped 0
  rw [hagain fun x _ => hacyclic x]
  rw [hclean] at hstops ⊢
  exact ⟨hstops, fun x _ => hacyclic x, rfl⟩

/-- Failures that say the same and caused each other are cleaned to each other. -/
example :
    let g : Failures := { items := #[
      { kind := .named "ValueError", arguments := [.text "No target"], cause := some 1 },
      { kind := .named "ValueError", arguments := [.text "No target"], cause := some 0 }] }
    g.clean 0 = 1 ∧ g.clean 1 = 0 := by decide +kernel

end Failures

end ReportTree
