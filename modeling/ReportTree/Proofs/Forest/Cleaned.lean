import ReportTree.Proofs.Failure.Cleaning
import ReportTree.Proofs.Forest.Import

/-!
# Cleaned failures in a tree

What is shown for a failure may be another one, as it is when failures are cleaned. One node is made
for every failure that is taken up. A failure is taken up once, but it is known by itself then and
not by what is shown for it. So a cause that was shown for a failure which only repeats it may be
taken up and shown again.

* `displayed_addAccount`: what showing a failure does, whatever is shown for each failure.
* `nodup_addCleanedException_iff`: when no failure has two nodes.
* `addCleanedException_informed`: no failure is left out that says more than its cause.
-/

namespace ReportTree.Forest

/-- `r` are a node and a forest that come of showing the failure `e` and what belongs to it below
`i`. The failures `taken` were taken up, and `made` are the nodes that were made for them, each with
the failure that it shows. -/
structure Displayed (f : Forest) (failures : Failures) (shown : FailureId → FailureId) (i : NodeId)
    (e : FailureId) (r : NodeId × Forest) (taken : List FailureId)
    (made : List (FailureId × NodeId)) : Prop where
  /-- The depth-first walk takes them up, from `e` to the end. -/
  walk : Failures.Walk (fun x => failures.parts (shown x)) [] [e] taken
  /-- Each of them has a node that shows what is shown for it. -/
  shown_eq : made.map Prod.fst = taken.map shown
  /-- The node was not there before. -/
  root_eq : r.1 = f.size
  parent_root : r.2.parent r.1 = some i
  /-- It is the last child of `i` now, and nothing else is listed by the nodes that were there. -/
  children_eq : ∀ j < f.size,
    r.2.children j = if j = i then f.children i ++ [r.1] else f.children j
  /-- The node is that of `e`. -/
  head_eq : made.head? = some (shown e, r.1)
  /-- The nodes stand in this order in the tree below the node of `e`. -/
  sublist : (made.map Prod.snd).Sublist (r.2.nodesBelow r.1)
  nodup_nodesBelow : (r.2.nodesBelow r.1).Nodup
  label_eq : ∀ p ∈ made, r.2.label p.2 = failureLabel (failures.get p.1)

variable {f : Forest} {i : NodeId} {shown : FailureId → FailureId}

/-- An account makes the nodes of what it takes up, in a new tree below `i`. -/
theorem displayed_addAccount (failures : Failures) (e : FailureId) (hi : i < f.size)
    (hshown : ∀ x, failures.size ≤ x → failures.parts (shown x) = []) :
    ∃ taken, f.Displayed failures shown i e (f.addAccount failures i (failures.account shown e))
      taken (accountNodes f failures i (failures.account shown e)) := by
  obtain ⟨taken, hwalk, hfailures⟩ := failures.walk_failures_account shown hshown e
  refine ⟨taken, ?_⟩
  have hfst := map_fst_accountNodes f failures i (failures.account shown e)
  rw [hfailures] at hfst
  generalize failures.account shown e = a at *
  obtain ⟨e', parts⟩ := a
  -- The walk takes up its start first, so that the account is that of what is shown for it.
  obtain rfl : e' = shown e := by
    cases hwalk with
    | skip he => cases he
    | take => exact (List.cons.inj hfailures).1
  obtain ⟨v, hv, hmade⟩ := extends_addAccount_of_lt hi failures (shown e) parts
  have hbelow := hv.grown.holds.nodesBelow_eq hv.heads_eq
  exact {
    walk := hwalk
    shown_eq := hfst
    root_eq := rfl
    parent_root := by
      have hparent := hv.parent_eq _ (lt_size_failureNode f i (failures.get (shown e)))
      rwa [parent_failureNode, if_pos rfl] at hparent
    children_eq := fun j hj => by
      rw [hv.children_eq j hj, children_failureNode hi]
      by_cases hji : j = i
      · rw [if_pos hji, if_pos hji.symm, hji]
        rfl
      · rw [if_neg hji, if_neg (Ne.symm hji)]
    head_eq := rfl
    sublist := by
      have hsublist := hmade.sublist
      rwa [← hv.grown.nodes_eq, ← hbelow] at hsublist
    nodup_nodesBelow := by
      have hnodup := hv.grown.nodup
      rwa [← hbelow] at hnodup
    label_eq := hmade.label_eq }

/-- The nodes that are made for failures when `e` is shown below `i` and failures are cleaned, each
with the failure that it shows. -/
def cleanedNodes (f : Forest) (failures : Failures) (i : NodeId) (e : FailureId) :
    List (FailureId × NodeId) :=
  accountNodes f failures i (failures.account failures.clean e)

theorem displayed_addCleanedException (failures : Failures) (e : FailureId) (hi : i < f.size) :
    ∃ taken, f.Displayed failures failures.clean i e (f.addCleanedException failures i e) taken
      (f.cleanedNodes failures i e) :=
  displayed_addAccount failures e hi fun _ => Failures.parts_clean_of_size_le

/-! ## One node for each failure -/

/-- No failure has two nodes if and only if no two failures that are taken up are cleaned to the same
one. -/
theorem nodup_addCleanedException_iff (failures : Failures) (e : FailureId) (hi : i < f.size) :
    ∃ taken, f.Displayed failures failures.clean i e (f.addCleanedException failures i e) taken
        (f.cleanedNodes failures i e) ∧
      (((f.cleanedNodes failures i e).map Prod.fst).Nodup ↔ failures.CleansApart e) := by
  obtain ⟨taken, hd⟩ := displayed_addCleanedException failures e hi
  refine ⟨taken, hd, ?_⟩
  have hmem {x : FailureId} := hd.walk.mem_iff_reaches (x := x)
  rw [hd.shown_eq, List.nodup_map_iff_inj_on hd.walk.nodup]
  constructor
  · intro h x y hx hy
    exact h x (hmem.2 hx) y (hmem.2 hy)
  · intro h x hx y hy
    exact h x y (hmem.1 hx) (hmem.1 hy)

/-- A failure that only repeats its cause. The cause and another failure caused each other. -/
def repeated : Failures where
  items := #[
    { kind := .named "RuntimeError", arguments := [.text "ValueError: No target"], cause := some 1 },
    { kind := .named "ValueError", arguments := [.text "No target"], cause := some 2 },
    { kind := .named "RuntimeError", arguments := [.text "Build stopped"], cause := some 1 }]

/-- The cause is shown for the first failure and is taken up by itself afterwards. -/
theorem cleanedNodes_repeated :
    (empty.addRoot "Build").2.cleanedNodes repeated 0 0 = [(1, 1), (2, 2), (1, 3)] := by
  decide +kernel

/-- The cause has two nodes, for two failures are cleaned to it: the first one and itself. -/
theorem nodup_addCleanedException_iff_repeated :
    0 < (empty.addRoot "Build").2.size ∧
      ∃ taken, (empty.addRoot "Build").2.Displayed repeated repeated.clean 0 0
          ((empty.addRoot "Build").2.addCleanedException repeated 0 0) taken
          [(1, 1), (2, 2), (1, 3)] ∧
        ¬[1, 2, 1].Nodup ∧ ¬repeated.CleansApart 0 := by
  have hi : 0 < (empty.addRoot "Build").2.size := by decide
  obtain ⟨taken, hd, hiff⟩ := nodup_addCleanedException_iff repeated 0 hi
  rw [cleanedNodes_repeated] at hd hiff
  have htwice : ¬[1, 2, 1].Nodup := by decide
  exact ⟨hi, taken, hd, htwice, fun h => htwice (hiff.2 h)⟩

/-- So a failure may have two nodes. -/
theorem not_nodup_addCleanedException :
    ¬∀ (f : Forest) (failures : Failures) (i : NodeId) (e : FailureId), i < f.size →
      ((f.cleanedNodes failures i e).map Prod.fst).Nodup := by
  intro h
  have hnodup := h (empty.addRoot "Build").2 repeated 0 0 (by decide)
  rw [cleanedNodes_repeated] at hnodup
  exact absurd hnodup (by decide)

/-! ## Nothing left out -/

/-- The nodes `made`, each for a failure, are no more than can be reached from `e`, and nothing is
left out but what cleaning passes by. -/
structure Informed (failures : Failures) (e : FailureId) (made : List (FailureId × NodeId)) :
    Prop where
  /-- Every failure is cleaned as far as its causes are repeated. -/
  cleans : ∀ x, failures.Cleans [x] x (failures.clean x)
  length_le : ∃ s : Finset FailureId, (∀ x, x ∈ s ↔ Failures.Reaches failures.parts e x) ∧
    made.length ≤ s.card
  exists_clean_eq : ∀ p ∈ made, ∃ x, Failures.Reaches failures.parts e x ∧ failures.clean x = p.1
  /-- What cleaning leaves as it is has a node. -/
  mem_of_clean_eq : ∀ x, Failures.Reaches failures.parts e x → failures.clean x = x →
    x ∈ made.map Prod.fst

/-- Showing a failure cleaned comes to an end, and leaves out nothing that says more than its
cause. -/
theorem addCleanedException_informed (failures : Failures) (e : FailureId) (hi : i < f.size) :
    ∃ taken, f.Displayed failures failures.clean i e (f.addCleanedException failures i e) taken
        (f.cleanedNodes failures i e) ∧
      Informed failures e (f.cleanedNodes failures i e) := by
  obtain ⟨taken, hd⟩ := displayed_addCleanedException failures e hi
  have hreach {x : FailureId} (hx : x ∈ taken) : Failures.Reaches failures.parts e x :=
    Failures.reaches_of_reaches_clean (hd.walk.mem_iff_reaches.1 hx)
  refine ⟨taken, hd, failures.cleans_clean, ?_, fun p hp => ?_, fun x hx hclean => ?_⟩
  · obtain ⟨s, hs⟩ := failures.exists_finset_reaches e
    have hlength : (f.cleanedNodes failures i e).length = taken.length := by
      simpa using congrArg List.length hd.shown_eq
    refine ⟨s, hs, ?_⟩
    rw [hlength, ← List.toFinset_card_of_nodup hd.walk.nodup]
    exact Finset.card_le_card fun x hx => (hs x).2 (hreach (List.mem_toFinset.1 hx))
  · have hmem : p.1 ∈ taken.map failures.clean :=
      hd.shown_eq ▸ List.mem_map_of_mem hp
    obtain ⟨x, hx, hxp⟩ := List.mem_map.1 hmem
    exact ⟨x, hreach hx, hxp⟩
  · rw [hd.shown_eq]
    exact List.mem_map.2 (hd.walk.exists_clean_eq hx hclean)

/-- The first failure has no node. Its cause, which cleaning leaves as it is, has one. -/
theorem addCleanedException_informed_repeated :
    0 < (empty.addRoot "Build").2.size ∧
      (∃ taken, (empty.addRoot "Build").2.Displayed repeated repeated.clean 0 0
        ((empty.addRoot "Build").2.addCleanedException repeated 0 0) taken
        [(1, 1), (2, 2), (1, 3)]) ∧
      Informed repeated 0 [(1, 1), (2, 2), (1, 3)] ∧
      Failures.Reaches repeated.parts 0 1 ∧ repeated.clean 1 = 1 := by
  have hi : 0 < (empty.addRoot "Build").2.size := by decide
  have hreach : Failures.Reaches repeated.parts 0 1 :=
    .single (by decide +kernel : 1 ∈ repeated.parts 0)
  obtain ⟨taken, hd, hinformed⟩ := addCleanedException_informed repeated 0 hi
  rw [cleanedNodes_repeated] at hd hinformed
  exact ⟨hi, ⟨taken, hd⟩, hinformed, hreach, by decide +kernel⟩

end ReportTree.Forest
