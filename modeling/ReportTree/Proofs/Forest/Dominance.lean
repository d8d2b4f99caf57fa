import ReportTree.Proofs.Forest.Raise
import ReportTree.Proofs.Forest.Run

/-!
# Severity on the way down

In a dominated forest every node is at least as severe as the nodes that it lists, so as everything
below it. Edits keep that, and so does moving a node below one that is severe enough.

* `Dominated.edit`: one edit.
* `Run.dominated`: a whole run whose moves go below nodes that are severe enough.
* `Run.atLeast_of_below`: after such a run, a node is at least as severe as all below it.
-/

namespace ReportTree

namespace Forest

/-- Every node is at least as severe as the nodes that it lists. -/
def Dominated (f : Forest) : Prop :=
  ∀ i, ∀ c ∈ f.children i, (f.level i).atLeast (f.level c) = true

/-- `j` is reached from `i` along lists of children. -/
def Descends (f : Forest) : NodeId → NodeId → Prop :=
  Relation.TransGen fun i c => c ∈ f.children i

/-- `p` is reached from `i` along parents. -/
def Ascends (f : Forest) : NodeId → NodeId → Prop :=
  Relation.TransGen fun i p => f.parent i = some p

/-- A move puts no node below one that is less severe, nor below one that it is an ancestor of. -/
def Call.Orderly (f : Forest) : Call → Prop
  | .move i target => (f.level target).atLeast (f.level i) = true ∧ ¬f.Ascends target i
  | _ => True

variable {f g : Forest}

/-- In a dominated forest, severity only falls along a path down. -/
theorem Dominated.atLeast_of_descends (hf : f.Dominated) {i j : NodeId} (h : f.Descends i j) :
    (f.level i).atLeast (f.level j) = true := by
  induction h with
  | single h => exact hf _ _ h
  | tail _ h ih => exact Level.atLeast_trans ih (hf _ _ h)

/-- A forest that shows the same levels and lists no more below any node is dominated too. -/
theorem Dominated.mono (hf : f.Dominated) (hlevel : ∀ j, g.level j = f.level j)
    (hchildren : ∀ j, ∀ c ∈ g.children j, c ∈ f.children j) : g.Dominated := by
  intro i c hc
  rw [hlevel, hlevel]
  exact hf i c (hchildren i c hc)

theorem dominated_empty : empty.Dominated := by
  intro i c hc
  rw [children_of_size_le (Nat.zero_le i)] at hc
  cases hc

theorem Dominated.addRoot (hf : f.Dominated) (hc : f.Coherent) (name : Text) :
    (f.addRoot name).2.Dominated := by
  intro j c h
  rw [Forest.addRoot, children_push] at h
  split at h
  · cases h
  · next hj =>
    rw [Forest.addRoot, level_push, level_push, if_neg hj, if_neg (Nat.ne_of_lt (hc.child_lt h))]
    exact hf j c h

/-! ## One edit -/

theorem Dominated.addBelow (hf : f.Dominated) (hc : f.Coherent) {i : NodeId} (hi : i < f.size)
    {x : Label} (hx : x.level = .none) : (f.addBelow i x).2.Dominated := by
  intro j c h
  rw [children_addBelow hi] at h
  rw [level_addBelow, level_addBelow]
  have hold : c ∈ f.children j → (if j = f.size then x.level else f.level j).atLeast
      (if c = f.size then x.level else f.level c) = true := by
    intro h
    rw [if_neg (Nat.ne_of_lt (lt_size_of_mem_children h)), if_neg (Nat.ne_of_lt (hc.child_lt h))]
    exact hf j c h
  split at h
  · rcases List.mem_append.1 h with h | h
    · exact hold h
    · rw [List.mem_singleton] at h
      rw [if_pos h, hx]
      exact Level.atLeast_none _
  · exact hold h

/-- A child that the level climbs to has a parent that it climbs to as well, or one that was severe
enough before. -/
theorem Dominated.raise (hf : f.Dominated) (hc : f.Coherent) {i : NodeId} (hi : i < f.size)
    {l : Level} (hl : l.atLeast (f.level i) = true) : (f.raise i l).Dominated := by
  intro j c h
  rw [children_raise] at h
  by_cases hj : Climbs f l i j
  · rw [level_raise_of_climbs hc hi hj]
    by_cases hcc : Climbs f l i c
    · rw [level_raise_of_climbs hc hi hcc]
      exact Level.atLeast_refl l
    · rw [level_raise_of_not_climbs hc hi hcc]
      exact Level.atLeast_trans (hj.atLeast hl) (hf j c h)
  · rw [level_raise_of_not_climbs hc hi hj]
    by_cases hcc : Climbs f l i c
    · rw [level_raise_of_climbs hc hi hcc]
      exact Level.atLeast_of_not_higher fun hup => hj (hcc.up (hc.parent_eq h) hup)
    · rw [level_raise_of_not_climbs hc hi hcc]
      exact hf j c h

theorem Dominated.absorbOnlyChild (hf : f.Dominated) {i : NodeId} {sep : Text} :
    (f.absorbOnlyChild i sep).Dominated := by
  rcases f.absorbOnlyChild_cases i sep with hsame | ⟨c, hc⟩
  · rw [hsame]
    exact hf
  · obtain ⟨-, hlevel, hchildren, -⟩ := absorbOnlyChild_spec sep hc rfl
    intro j x h
    rw [hlevel, hlevel]
    rw [hchildren] at h
    split at h
    · next hij =>
      subst hij
      exact Level.atLeast_trans (hf i c (hc ▸ List.mem_singleton_self c)) (hf c x h)
    · split at h
      · cases h
      · exact hf j x h

theorem Dominated.edit (hf : f.Dominated) (hc : f.Coherent) (h : Edit f g) : g.Dominated := by
  cases h with
  | relabel i hg =>
    exact hf.mono (fun _ => level_modifyLabel hg) fun _ _ h => children_modifyLabel ▸ h
  | grow hi hx => exact hf.addBelow hc hi hx
  | raise hi hl => exact hf.raise hc hi hl
  | absorb i sep => exact hf.absorbOnlyChild
  | sort i =>
    exact hf.mono (fun _ => level_modifyChildren) fun _ _ => mem_children_sortChildren_iff.1

theorem Dominated.edits (hf : f.Dominated) (hc : f.Coherent) (h : Edits f g) : g.Dominated := by
  induction h with
  | refl => exact hf
  | tail hs h ih => exact ih.edit (Edits.coherent hs hc) h

/-! ## Moves -/

theorem Dominated.attach (hf : f.Dominated) {i target : NodeId} (ht : target < f.size)
    (hl : (f.level target).atLeast (f.level i) = true) : (f.attach i target).Dominated := by
  intro j c h
  rw [level_attach, level_attach]
  rw [children_attach ht] at h
  split at h
  · next htj =>
    rcases List.mem_append.1 h with h | h
    · exact hf j c h
    · rw [List.mem_singleton.1 h, ← htj]
      exact hl
  · exact hf j c h

/-- The old parent has one node less below it. -/
theorem Dominated.move (hf : f.Dominated) {i target : NodeId} (ht : target < f.size)
    (hl : (f.level target).atLeast (f.level i) = true) (h : f.move i target = .ok g) :
    g.Dominated := by
  unfold Forest.move at h
  split at h
  · cases h
    exact hf.attach ht hl
  · next p hp =>
    split at h
    · cases h
      have herase : (f.modifyChildren p (·.erase i)).Dominated := by
        refine hf.mono (fun _ => level_modifyChildren) fun j c hc => ?_
        rw [children_modifyChildren] at hc
        split at hc
        · exact List.mem_of_mem_erase hc
        · exact hc
      refine herase.attach ?_ ?_
      · rwa [size_modifyChildren]
      · rwa [level_modifyChildren, level_modifyChildren]
    · cases h

/-! ## Runs -/

theorem Dominated.step (hf : f.Dominated) (hc : f.Coherent) (h : Step Call.Orderly f g) :
    g.Dominated := by
  obtain ⟨c, hnodes, horder, rfl⟩ := h
  rcases perform_cases hc hnodes with h | ⟨i, target, rfl, h⟩
  · exact hf.edits hc h
  · exact hf.move (hnodes target (.tail _ (.head _))) horder.1 h

theorem Run.dominated (h : Run Call.Orderly f g) (hf : f.Dominated) (hc : f.Coherent) :
    g.Dominated := by
  induction h with
  | refl => exact hf
  | tail hs h ih => exact ih.step (Run.coherent hs hc) h

/-- After any calls, in any order and about any nodes, every node is at least as severe as every
node below it. -/
theorem Run.atLeast_of_below (hc : f.Coherent) (hf : f.Dominated) (h : Run Call.Orderly f g)
    {i j : NodeId} (hij : g.Descends i j) : (g.level i).atLeast (g.level j) = true :=
  (h.dominated hf hc).atLeast_of_descends hij

/-- A node with an error moves below a root that has become severe enough. -/
theorem Run.atLeast_of_below_moved :
    ∃ f g : Forest, f.Coherent ∧ f.Dominated ∧ Run Call.Orderly f g ∧ g.Descends 1 2 ∧
      (g.level 1).atLeast (g.level 2) = true := by
  have hroots : ((empty.addRoot "Lint").2.addRoot "Build").2.Coherent :=
    (coherent_empty.addRoot _).addRoot _
  have hdom : ((empty.addRoot "Lint").2.addRoot "Build").2.Dominated :=
    (dominated_empty.addRoot coherent_empty _).addRoot (coherent_empty.addRoot _) _
  have hadd : Run Call.Orderly ((empty.addRoot "Lint").2.addRoot "Build").2 _ :=
    Run.call (c := .addChild 0 "x Broken") .refl (by decide) trivial
  have hset := hadd.call (c := .setLevel 1 (some .fatal)) (by decide) trivial
  have hmove := hset.call (c := .move 2 1) (by decide) ⟨by decide, fun h => by
    obtain ⟨p, hp, -⟩ := Relation.TransGen.head'_iff.1 h
    cases hp⟩
  refine ⟨_, _, hroots, hdom, hmove, .single ?_,
    hmove.atLeast_of_below hroots hdom (.single ?_)⟩
  all_goals decide

end Forest

end ReportTree
