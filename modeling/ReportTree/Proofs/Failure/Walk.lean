import Mathlib.Data.Finset.Card
import Mathlib.Data.List.Nodup
import Mathlib.Logic.Relation
import ReportTree.Failure.Graph

/-!
# Walks through failures

What it means to walk through failures depth first, as a relation without a bound on the steps. An
account follows such a walk from its failure to the end, for it has a level for every failure that
there is.

* `Walk.nodup`, `Walk.mem_iff_reaches`: a walk takes up what can be reached, each failure once.
* `follows_accountTo`: an account follows the walk as long as there are levels enough.
* `walk_failures_account`: an account takes up what the walk from its failure takes up, in the order
  of the walk.
-/

namespace ReportTree.Failures

/-- With `seen` seen and `pending` still to be visited in this order, the depth-first walk takes up
`taken` in this order. What was seen is skipped. What is taken up is seen from then on, and its parts
are visited before all that was pending. -/
inductive Walk (parts : FailureId → List FailureId) :
    (seen pending taken : List FailureId) → Prop
  | done (seen : List FailureId) : Walk parts seen [] []
  | skip {seen pending taken : List FailureId} {e : FailureId} (he : e ∈ seen)
      (h : Walk parts seen pending taken) : Walk parts seen (e :: pending) taken
  | take {seen pending taken : List FailureId} {e : FailureId} (he : e ∉ seen)
      (h : Walk parts (e :: seen) (parts e ++ pending) taken) :
      Walk parts seen (e :: pending) (e :: taken)

section

variable {parts : FailureId → List FailureId} {seen pending taken : List FailureId}
  {e x : FailureId}

/-- `x` can be reached from `e`, going from failures to their parts. -/
def Reaches (parts : FailureId → List FailureId) : FailureId → FailureId → Prop :=
  Relation.ReflTransGen fun a b => b ∈ parts a

theorem Walk.not_mem_seen (h : Walk parts seen pending taken) (hx : x ∈ taken) : x ∉ seen := by
  induction h with
  | done => cases hx
  | skip _ _ ih => exact ih hx
  | take he _ ih =>
    rcases List.mem_cons.1 hx with rfl | hx
    · exact he
    · exact fun h => ih hx (List.mem_cons_of_mem _ h)

/-- Nothing is taken up twice. -/
theorem Walk.nodup (h : Walk parts seen pending taken) : taken.Nodup := by
  induction h with
  | done => exact List.nodup_nil
  | skip _ _ ih => exact ih
  | take _ h ih => exact List.nodup_cons.2 ⟨fun hx => h.not_mem_seen hx List.mem_cons_self, ih⟩

/-- What is taken up can be reached. -/
theorem Walk.exists_reaches (h : Walk parts seen pending taken) (hx : x ∈ taken) :
    ∃ e ∈ pending, Reaches parts e x := by
  induction h with
  | done => cases hx
  | skip _ _ ih =>
    obtain ⟨e, he, hreach⟩ := ih hx
    exact ⟨e, List.mem_cons_of_mem _ he, hreach⟩
  | @take _ _ _ e _ _ ih =>
    rcases List.mem_cons.1 hx with rfl | hx
    · exact ⟨x, List.mem_cons_self, .refl⟩
    · obtain ⟨a, ha, hreach⟩ := ih hx
      rcases List.mem_append.1 ha with ha | ha
      · exact ⟨e, List.mem_cons_self, .head ha hreach⟩
      · exact ⟨a, List.mem_cons_of_mem _ ha, hreach⟩

/-- What was pending has been seen in the end, and so has every part of what was taken up. -/
theorem Walk.closed (h : Walk parts seen pending taken) :
    (∀ e ∈ pending, e ∈ seen ∨ e ∈ taken) ∧
      ∀ a ∈ taken, ∀ b ∈ parts a, b ∈ seen ∨ b ∈ taken := by
  induction h with
  | done => exact ⟨fun e he => (by cases he), fun a ha => (by cases ha)⟩
  | skip he _ ih =>
    refine ⟨fun x hx => ?_, ih.2⟩
    rcases List.mem_cons.1 hx with rfl | hx
    · exact .inl he
    · exact ih.1 x hx
  | @take seen pending taken e _ _ ih =>
    -- What the rest of the walk has seen is `e` or was seen before.
    have hseen {b : FailureId} (hb : b ∈ e :: seen ∨ b ∈ taken) : b ∈ seen ∨ b ∈ e :: taken := by
      simp only [List.mem_cons] at hb ⊢
      tauto
    refine ⟨fun x hx => ?_, fun a ha b hb => ?_⟩
    · rcases List.mem_cons.1 hx with rfl | hx
      · exact .inr List.mem_cons_self
      · exact hseen (ih.1 x (List.mem_append_right _ hx))
    · rcases List.mem_cons.1 ha with rfl | ha
      · exact hseen (ih.1 b (List.mem_append_left _ hb))
      · exact hseen (ih.2 a ha b hb)

/-- A walk from the start takes up what can be reached. -/
theorem Walk.mem_iff_reaches (h : Walk parts [] [e] taken) : x ∈ taken ↔ Reaches parts e x := by
  constructor
  · intro hx
    obtain ⟨a, ha, hreach⟩ := h.exists_reaches hx
    rwa [List.mem_singleton.1 ha] at hreach
  · intro hreach
    obtain ⟨hpending, hparts⟩ := h.closed
    induction hreach with
    | refl => exact (hpending e List.mem_cons_self).resolve_left List.not_mem_nil
    | tail _ hb ih => exact (hparts _ ih _ hb).resolve_left List.not_mem_nil

end

/-! ## Accounts -/

variable {g : Failures} {shown : FailureId → FailureId} {seen es : List FailureId} {e : FailureId}
  {depth : Nat}

/-- `r` are accounts, and what was seen after them, that follow the walk through `pending` as far as
that goes by itself: what else is pending is walked through afterwards. -/
def Follows (g : Failures) (shown : FailureId → FailureId) (seen pending : List FailureId)
    (r : List Account × List FailureId) : Prop :=
  ∃ taken : List FailureId, r.2 = taken.reverse ++ seen ∧
    Account.failuresAll r.1 = taken.map shown ∧
    ∀ {more rest : List FailureId}, Walk (fun e => g.parts (shown e)) r.2 more rest →
      Walk (fun e => g.parts (shown e)) seen (pending ++ more) (taken ++ rest)

/-- The failures that were not seen yet. -/
def unseen (g : Failures) (seen : List FailureId) : Finset FailureId :=
  (Finset.range g.size).filter (· ∉ seen)

theorem unseen_subset (taken : List FailureId) :
    g.unseen (taken ++ seen) ⊆ g.unseen seen := by
  intro x hx
  simp only [unseen, Finset.mem_filter, List.mem_append, not_or] at hx ⊢
  exact ⟨hx.1, hx.2.2⟩

theorem card_unseen_le (seen : List FailureId) : (g.unseen seen).card ≤ g.size := by
  refine Nat.le_trans (Finset.card_filter_le ..) ?_
  rw [Finset.card_range]

/-- Seeing a failure leaves one less. -/
theorem card_unseen_cons_lt (he : e < g.size) (hseen : e ∉ seen) :
    (g.unseen (e :: seen)).card < (g.unseen seen).card := by
  refine Finset.card_lt_card (Finset.ssubset_iff_subset_ne.2 ⟨unseen_subset [e], fun h => ?_⟩)
  have hmem : e ∈ g.unseen seen := Finset.mem_filter.2 ⟨Finset.mem_range.2 he, hseen⟩
  rw [← h] at hmem
  exact (Finset.mem_filter.1 hmem).2 List.mem_cons_self

theorem failuresAll_append (as bs : List Account) :
    Account.failuresAll (as ++ bs) = Account.failuresAll as ++ Account.failuresAll bs := by
  induction as with
  | nil => rfl
  | cons a as ih => rw [List.cons_append, Account.failuresAll, ih, Account.failuresAll,
      List.append_assoc]

theorem follows_collect
    (htake : ∀ seen' e, (g.unseen seen').card ≤ (g.unseen seen).card →
      g.Follows shown seen' [e]
        ((g.accountTo shown depth seen' e).1.toList, (g.accountTo shown depth seen' e).2)) :
    g.Follows shown seen es (collect (g.accountTo shown depth) seen es) := by
  induction es generalizing seen with
  | nil => exact ⟨[], rfl, rfl, fun h => h⟩
  | cons e es ih =>
    obtain ⟨taken, hseen, hfailures, hwalk⟩ := htake seen e (Nat.le_refl _)
    rw [collect]
    generalize g.accountTo shown depth seen e = r at *
    obtain ⟨a?, seen'⟩ := r
    dsimp only at *
    have hcard : (g.unseen seen').card ≤ (g.unseen seen).card := by
      rw [hseen]
      exact Finset.card_le_card (unseen_subset _)
    obtain ⟨taken', hseen', hfailures', hwalk'⟩ :=
      ih fun s e hs => htake s e (Nat.le_trans hs hcard)
    refine ⟨taken ++ taken', ?_, ?_, fun h => ?_⟩
    · rw [hseen', hseen, List.reverse_append, List.append_assoc]
    · rw [failuresAll_append, hfailures, hfailures', List.map_append]
    · rw [List.append_assoc]
      exact hwalk (hwalk' h)

/-- There are levels enough as long as there are more of them than failures that were not seen yet.
A failure that is not there has no parts. -/
theorem follows_accountTo (hshown : ∀ e, g.size ≤ e → g.parts (shown e) = [])
    (hdepth : (g.unseen seen).card < depth) :
    g.Follows shown seen [e]
      ((g.accountTo shown depth seen e).1.toList, (g.accountTo shown depth seen e).2) := by
  induction depth generalizing seen e with
  | zero => exact absurd hdepth (Nat.not_lt_zero _)
  | succ depth ih =>
    rw [accountTo]
    split
    · next he => exact ⟨[], rfl, rfl, fun h => .skip (List.contains_iff_mem.1 he) h⟩
    · next he =>
      have he : e ∉ seen := fun h => he (List.contains_iff_mem.2 h)
      have hparts : g.Follows shown (e :: seen) (g.parts (shown e))
          (collect (g.accountTo shown depth) (e :: seen) (g.parts (shown e))) := by
        by_cases hsize : e < g.size
        · have hcard := card_unseen_cons_lt hsize he
          exact follows_collect fun s x hs => ih (by omega)
        · rw [hshown e (Nat.le_of_not_lt hsize)]
          exact ⟨[], rfl, rfl, fun h => h⟩
      obtain ⟨taken, hseen, hfailures, hwalk⟩ := hparts
      refine ⟨e :: taken, ?_, ?_, fun h => .take he (hwalk h)⟩
      · rw [hseen, List.reverse_cons, List.append_assoc]
        rfl
      · simp only [Option.toList_some, Account.failuresAll, Account.failures, hfailures,
          List.append_nil, List.map_cons]

/-- An account takes up, as they are shown, the failures of the walk from its own one. -/
theorem walk_failures_account (g : Failures) (shown : FailureId → FailureId)
    (hshown : ∀ e, g.size ≤ e → g.parts (shown e) = []) (e : FailureId) :
    ∃ taken, Walk (fun e => g.parts (shown e)) [] [e] taken ∧
      (g.account shown e).failures = taken.map shown := by
  obtain ⟨taken, -, hfailures, hwalk⟩ :=
    follows_accountTo (e := e) hshown (Nat.lt_succ_of_le (card_unseen_le []))
  have hend : Walk (fun e => g.parts (shown e)) [] [e] taken := by
    simpa only [List.append_nil] using hwalk (.done _)
  refine ⟨taken, hend, ?_⟩
  rw [account]
  generalize (g.accountTo shown (g.size + 1) [] e).1 = a? at *
  cases a? with
  | some a =>
    rw [Option.getD_some]
    simpa only [Option.toList_some, Account.failuresAll, List.append_nil] using hfailures
  | none =>
    -- The walk takes up its first failure at least.
    have hmem : e ∈ taken := hend.mem_iff_reaches.2 .refl
    rw [Option.toList_none, Account.failuresAll] at hfailures
    rw [List.map_eq_nil_iff.1 hfailures.symm] at hmem
    cases hmem

/-- A failure that is not there has no parts. -/
theorem parts_of_size_le (he : g.size ≤ e) : g.parts e = [] := by
  have hget : g.get e = { kind := .named "Exception", arguments := [] } := by
    have hnone : g.items[e]? = none := Array.getElem?_eq_none_iff.2 he
    rw [get, hnone, Option.getD_none]
  rw [parts, members, cause?, hget]
  rfl

end ReportTree.Failures
