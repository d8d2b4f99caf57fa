import ReportTree.Proofs.Failure.Walk

/-!
# Cleaned failures

Cleaning a failure follows its causes past those that only repeat their cause. Here this is a way
without a bound on its steps: it ends by itself, for it comes to no failure twice. A walk that shows
every failure as cleaned leaves out only failures on such a way.

* `cleans_clean`: cleaning goes its way to the end.
* `reaches_of_reaches_clean`: such a walk comes to nothing that cannot be reached.
* `Walk.exists_clean_eq`: it shows every failure that cleaning leaves as it is.
-/

namespace ReportTree.Failures

/-- `c` is the cause of `e`, and `e` only repeats it. -/
def Repeats (g : Failures) (e c : FailureId) : Prop :=
  g.cause? e = some c ∧ g.isWrapperOf e c = true

/-- With `visited` met so far, the way of cleaning leads from `e` past failures that only repeat
their cause. It ends at the first one that does not, or the cause of which was met. -/
inductive Cleans (g : Failures) : (visited : List FailureId) → FailureId → FailureId → Prop
  | stop {visited : List FailureId} {e : FailureId} (h : ∀ c, g.Repeats e c → c ∈ visited) :
      Cleans g visited e e
  | pass {visited : List FailureId} {e c r : FailureId} (he : g.Repeats e c) (hc : c ∉ visited)
      (h : Cleans g (c :: visited) c r) : Cleans g visited e r

/-- No two of the failures that are taken up are cleaned to the same one, where `e` is taken up and
what belongs to a failure that is shown. -/
def CleansApart (g : Failures) (e : FailureId) : Prop :=
  ∀ x y, Reaches (fun e => g.parts (g.clean e)) e x → Reaches (fun e => g.parts (g.clean e)) e y →
    g.clean x = g.clean y → x = y

/-- From one failure to another, past failures that only repeat their cause. -/
abbrev Passes (g : Failures) : FailureId → FailureId → Prop := Relation.ReflTransGen g.Repeats

variable {g : Failures} {visited taken : List FailureId} {e c r x : FailureId} {steps : Nat}

theorem cause?_of_size_le (he : g.size ≤ e) : g.cause? e = none := by
  have hparts := parts_of_size_le he
  rw [parts, List.append_eq_nil_iff, Option.toList_eq_nil_iff] at hparts
  exact hparts.2

/-- There are steps enough as long as there are more of them than failures that were not met. One
that is not there needs none. -/
theorem cleans_cleanFrom (hsteps : g.size ≤ e ∨ (g.unseen visited).card < steps) :
    g.Cleans visited e (g.cleanFrom steps visited e) := by
  have habsent (he : g.size ≤ e) : g.Cleans visited e e := by
    refine .stop fun c hc => ?_
    rw [Repeats, cause?_of_size_le he] at hc
    cases hc.1
  induction steps generalizing visited e with
  | zero => exact habsent (hsteps.resolve_right (Nat.not_lt_zero _))
  | succ steps ih =>
    rw [cleanFrom]
    cases hcause : g.cause? e with
    | none =>
      refine .stop fun c hc => ?_
      rw [Repeats, hcause] at hc
      cases hc.1
    | some c =>
      have hsize : ¬g.size ≤ e := fun he => by
        rw [cause?_of_size_le he] at hcause
        cases hcause
      dsimp only
      split
      · next hstop =>
        refine .stop fun d hd => ?_
        obtain rfl : c = d := Option.some_inj.1 (hcause.symm.trans hd.1)
        simpa [hd.2] using hstop
      · next hgo =>
        simp only [Bool.or_eq_true, Bool.not_eq_true', not_or, Bool.not_eq_false,
          List.contains_iff_mem] at hgo
        have hrest : g.size ≤ c ∨ (g.unseen (c :: visited)).card < steps := by
          by_cases hc : g.size ≤ c
          · exact .inl hc
          · have hcard := card_unseen_cons_lt (Nat.lt_of_not_le hc) hgo.1
            have := hsteps.resolve_left hsize
            exact .inr (by omega)
        refine .pass ⟨hcause, hgo.2⟩ hgo.1 (ih hrest fun hc => .stop fun d hd => ?_)
        rw [Repeats, cause?_of_size_le hc] at hd
        cases hd.1

/-- Cleaning goes its way to the end: no cause is left out for lack of steps. -/
theorem cleans_clean (g : Failures) (e : FailureId) : g.Cleans [e] e (g.clean e) := by
  refine cleans_cleanFrom ?_
  by_cases he : g.size ≤ e
  · exact .inl he
  · have hlt := card_unseen_cons_lt (Nat.lt_of_not_le he) List.not_mem_nil
    exact .inr (Nat.lt_of_lt_of_le hlt (card_unseen_le []))

theorem Cleans.passes (h : g.Cleans visited e r) : g.Passes e r := by
  induction h with
  | stop => exact .refl
  | pass he _ _ ih => exact .head he ih

/-- The way does not come back to what was met. -/
theorem Cleans.eq_or_not_mem (h : g.Cleans visited e r) : r = e ∨ r ∉ visited := by
  induction h with
  | stop => exact .inl rfl
  | pass _ hc _ ih =>
    refine .inr ?_
    rcases ih with rfl | hr
    · exact hc
    · exact fun h => hr (List.mem_cons_of_mem _ h)

theorem passes_clean (g : Failures) (e : FailureId) : g.Passes e (g.clean e) :=
  (cleans_clean g e).passes

/-- A failure that cleaning leaves as it is repeats no other one. -/
theorem eq_of_clean_eq (hx : g.clean x = x) (hc : g.Repeats x c) : c = x := by
  have hclean := cleans_clean g x
  rw [hx] at hclean
  cases hclean with
  | stop h => exact List.mem_singleton.1 (h c hc)
  | pass _ hd h =>
    -- The way comes back to where it started.
    rcases h.eq_or_not_mem with rfl | hmem
    · exact absurd (List.mem_singleton_self _) hd
    · exact absurd (List.mem_cons_of_mem _ (List.mem_singleton_self _)) hmem

/-- So nothing else can be passed to from there. -/
theorem Passes.eq_of_clean_eq (hx : g.clean x = x) (h : g.Passes x r) : r = x := by
  induction h with
  | refl => rfl
  | tail _ hr ih =>
    subst ih
    exact Failures.eq_of_clean_eq hx hr

/-! ## Walks -/

/-- A failure that repeats its cause has no other part. -/
theorem Repeats.mem_parts_iff (h : g.Repeats e c) : x ∈ g.parts e ↔ x = c := by
  obtain ⟨hcause, hwrapper⟩ := h
  rw [isWrapperOf, Bool.and_eq_true, List.isEmpty_iff] at hwrapper
  rw [parts, hwrapper.1, hcause]
  exact List.mem_singleton

theorem Passes.reaches (h : g.Passes e r) : Reaches g.parts e r := by
  induction h with
  | refl => exact .refl
  | tail _ hr ih => exact ih.tail (hr.mem_parts_iff.2 rfl)

/-- What can be reached by way of cleaned failures can be reached. -/
theorem reaches_of_reaches_clean (h : Reaches (fun e => g.parts (g.clean e)) e x) :
    Reaches g.parts e x := by
  induction h with
  | refl => exact .refl
  | tail _ hx ih => exact (ih.trans (passes_clean g _).reaches).tail hx

/-- Whatever can be reached is on the way on which a failure was cleaned that was taken up. -/
theorem Walk.exists_passes (h : Walk (fun e => g.parts (g.clean e)) [] [e] taken)
    (hx : Reaches g.parts e x) : ∃ a ∈ taken, g.Passes a x ∧ g.Passes x (g.clean a) := by
  induction hx with
  | refl => exact ⟨e, h.mem_iff_reaches.2 .refl, .refl, passes_clean g e⟩
  | @tail y x _ hx ih =>
    obtain ⟨a, ha, hay, hyr⟩ := ih
    rcases hyr.cases_head with rfl | ⟨c, hyc, hcr⟩
    · -- The way ends here, so that the parts are taken up.
      have hmem : x ∈ taken := h.mem_iff_reaches.2 ((h.mem_iff_reaches.1 ha).tail hx)
      exact ⟨x, hmem, .refl, passes_clean g x⟩
    · obtain rfl := hyc.mem_parts_iff.1 hx
      exact ⟨a, ha, hay.tail hyc, hcr⟩

/-- A failure that can be reached and that cleaning leaves as it is, is what one is cleaned to that
was taken up. -/
theorem Walk.exists_clean_eq (h : Walk (fun e => g.parts (g.clean e)) [] [e] taken)
    (hx : Reaches g.parts e x) (hclean : g.clean x = x) : ∃ a ∈ taken, g.clean a = x := by
  obtain ⟨a, ha, -, hxr⟩ := h.exists_passes hx
  exact ⟨a, ha, hxr.eq_of_clean_eq hclean⟩

/-- A failure that is not there is cleaned to itself and has no parts. -/
theorem parts_clean_of_size_le (he : g.size ≤ e) : g.parts (g.clean e) = [] := by
  have hclean : g.clean e = e := by
    rcases (passes_clean g e).cases_head with h | ⟨c, hc, -⟩
    · exact h.symm
    · rw [Repeats, cause?_of_size_le he] at hc
      cases hc.1
  rw [hclean, parts_of_size_le he]

/-- What can be reached is finite: it is what an account takes up. -/
theorem exists_finset_reaches (g : Failures) (e : FailureId) :
    ∃ s : Finset FailureId, ∀ x, x ∈ s ↔ Reaches g.parts e x := by
  obtain ⟨taken, hwalk, -⟩ := g.walk_failures_account id (fun _ => parts_of_size_le) e
  exact ⟨taken.toFinset, fun x => List.mem_toFinset.trans hwalk.mem_iff_reaches⟩

end ReportTree.Failures
