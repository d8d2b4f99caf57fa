import ReportTree.Proofs.Forest.Coherence

/-!
# Chains of new nodes

Markup with tabs in front and a path of which the end is missing make several nodes at once, each
below the one before it.

* `Chained`: the links of a forest to which a chain was added.
* `Chained.addBelow`: one more node at the end of the chain.
-/

namespace ReportTree.Forest

/-- The end of a chain of `n` new nodes below `d`; `d` itself if there are none. -/
def chainEnd (f : Forest) (d : NodeId) : (n : Nat) → NodeId
  | 0 => d
  | n + 1 => f.size + n

/-- A chain ends with its last node. -/
theorem chainEnd_eq_new_iff {f : Forest} {d : NodeId} {n k : Nat} (hd : d < f.size) :
    f.chainEnd d n = f.size + k ↔ k + 1 = n := by
  cases n with
  | zero => exact iff_of_false (Nat.ne_of_lt (Nat.lt_add_right k hd)) (Nat.succ_ne_zero k)
  | succ n => rw [chainEnd, Nat.add_right_inj, Nat.add_right_cancel_iff, eq_comm]

/-- It ends with an old node if there is no new one. -/
theorem chainEnd_eq_old_iff {f : Forest} {d k : NodeId} {n : Nat} (hk : k < f.size) :
    f.chainEnd d n = k ↔ n = 0 ∧ d = k := by
  cases n with
  | zero => simp [chainEnd]
  | succ n =>
    have hlt : k < f.size + n := Nat.lt_add_right n hk
    simp [chainEnd, Nat.ne_of_gt hlt]

/-- `g` has the links of `f` and those of a chain of `n` new nodes, of which the first one is the
last child of `d` and every other one is the only child of the one before it. -/
structure Chained (f : Forest) (d : NodeId) (n : Nat) (g : Forest) : Prop where
  size_eq : g.size = f.size + n
  parent_new : ∀ k < n, g.parent (f.size + k) = some (f.chainEnd d k)
  parent_old : ∀ j < f.size, g.parent j = f.parent j
  children_new : ∀ k < n, g.children (f.size + k) = if k + 1 < n then [f.size + (k + 1)] else []
  children_old : ∀ j < f.size, g.children j = f.children j ++ if j = d ∧ 0 < n then [f.size] else []

variable {f g h : Forest} {d d' : NodeId} {n : Nat} {x : Label}

theorem Chained.refl (f : Forest) (d : NodeId) : f.Chained d 0 f where
  size_eq := rfl
  parent_new k hk := absurd hk (Nat.not_lt_zero k)
  parent_old _ _ := rfl
  children_new k hk := absurd hk (Nat.not_lt_zero k)
  children_old j _ := by simp

/-- Only the links count. -/
theorem Chained.congr (hg : f.Chained d n g) (hsize : h.size = g.size)
    (hparent : ∀ j, h.parent j = g.parent j) (hchildren : ∀ j, h.children j = g.children j) :
    f.Chained d n h where
  size_eq := hsize.trans hg.size_eq
  parent_new k hk := (hparent _).trans (hg.parent_new k hk)
  parent_old j hj := (hparent j).trans (hg.parent_old j hj)
  children_new k hk := (hchildren _).trans (hg.children_new k hk)
  children_old j hj := (hchildren j).trans (hg.children_old j hj)

theorem Chained.modifyLabel (hg : f.Chained d n g) (i : NodeId) (y : Label → Label) :
    f.Chained d n (g.modifyLabel i y) :=
  hg.congr size_modifyLabel (fun _ => parent_modifyLabel) fun _ => children_modifyLabel

/-- No chain is below any node. -/
theorem Chained.of_zero (hg : f.Chained d 0 g) (d' : NodeId) : f.Chained d' 0 g :=
  { hg with
    parent_new := fun k hk => absurd hk (Nat.not_lt_zero k)
    children_old := fun j hj => by simpa using hg.children_old j hj }

theorem Chained.end_lt (hg : f.Chained d n g) (hd : d < f.size) : f.chainEnd d n < g.size := by
  rw [hg.size_eq]
  cases n with
  | zero => exact hd
  | succ n => simp [chainEnd]

/-- Nothing is below the last of the new nodes. -/
theorem Chained.children_end (hg : f.Chained d (n + 1) g) :
    g.children (f.chainEnd d (n + 1)) = [] :=
  (hg.children_new n (Nat.lt_succ_self n)).trans (if_neg (Nat.lt_irrefl _))

/-- A node that is made at the end of the chain is the new end. -/
theorem Chained.addBelow (hg : f.Chained d n g) (hd : d < f.size) :
    f.Chained d (n + 1) (g.addBelow (f.chainEnd d n) x).2 where
  size_eq := by rw [size_addBelow, hg.size_eq, Nat.add_assoc]
  parent_new k hk := by
    rw [parent_addBelow, hg.size_eq]
    by_cases hkn : k = n
    · rw [hkn, if_pos rfl]
    · rw [if_neg fun h => hkn (Nat.add_left_cancel h), hg.parent_new k (by omega)]
  parent_old j hj := by
    rw [parent_addBelow, hg.size_eq, if_neg (Nat.ne_of_lt (by omega)), hg.parent_old j hj]
  children_new k hk := by
    simp only [children_addBelow (hg.end_lt hd), hg.size_eq, chainEnd_eq_new_iff hd]
    by_cases hkn : k = n
    · rw [hkn, children_of_size_le (Nat.le_of_eq hg.size_eq), if_neg (by omega), if_neg (by omega)]
    · rw [hg.children_new k (by omega)]
      by_cases hlast : k + 1 = n
      · simp [hlast]
      · rw [if_neg hlast, if_pos (by omega), if_pos (by omega)]
  children_old j hj := by
    rw [children_addBelow (hg.end_lt hd), hg.children_old j hj, hg.size_eq]
    simp only [chainEnd_eq_old_iff hj, eq_comm (a := d)]
    by_cases hjd : j = d
    · cases n <;> simp [hjd]
    · simp [hjd]

end ReportTree.Forest
