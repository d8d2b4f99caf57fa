import ReportTree.Forest.View
import ReportTree.Proofs.Forest.Coherence

/-!
# Planting trees

Planting a tree makes new nodes and leaves the old ones alone. The new nodes show the tree, and they
keep on showing it as long as nobody changes them.

* `planted_plant`, `plantedAll_plantAll`: what planting does, by recursion on the tree.
* `Planted.tree_eq`: the tree that was planted is the one that is seen.
-/

namespace ReportTree.Forest

/-- The nodes from `m` on and before `n` are the same in both forests. -/
def Agree (m n : NodeId) (f g : Forest) : Prop := ∀ j, m ≤ j → j < n → f.get j = g.get j

/-- `r` is a root and a forest that come of planting `t` in `f`. -/
structure Planted (f : Forest) (parent : Option NodeId) (t : Tree) (r : NodeId × Forest) :
    Prop where
  root_eq : r.1 = f.size
  size_lt : f.size < r.2.size
  /-- Old nodes are left alone. -/
  agree : Agree 0 f.size r.2 f
  parent_root : r.2.parent r.1 = parent
  coherent : f.Coherent → (∀ p ∈ parent, p < f.size) → r.2.Coherent
  /-- The new nodes show the tree, in every forest that has them. There are no more levels than new
  nodes. -/
  treeTo_eq : ∀ g : Forest, Agree f.size r.2.size g r.2 → ∀ depth, r.2.size ≤ f.size + depth →
    treeTo depth g r.1 = t

/-- `r` are roots and a forest that come of planting `ts` in `f` below a node. -/
structure PlantedAll (f : Forest) (parent : NodeId) (ts : List Tree)
    (r : List NodeId × Forest) : Prop where
  size_le : f.size ≤ r.2.size
  agree : Agree 0 f.size r.2 f
  mem : ∀ c ∈ r.1, f.size ≤ c ∧ r.2.parent c = some parent
  nodup : r.1.Nodup
  coherent : f.Coherent → parent < f.size → r.2.Coherent
  map_treeTo_eq : ∀ g : Forest, Agree f.size r.2.size g r.2 → ∀ depth, r.2.size ≤ f.size + depth →
    r.1.map (treeTo depth g) = ts

section Reading

variable {m n j : NodeId} {f g : Forest}

theorem Agree.trans {h : Forest} (hf : Agree m n f g) (hg : Agree m n g h) : Agree m n f h :=
  fun j hm hn => (hf j hm hn).trans (hg j hm hn)

/-- Forests that agree on some nodes agree on fewer. -/
theorem Agree.mono {m' n' : NodeId} (h : Agree m n f g) (hm : m ≤ m') (hn : n' ≤ n) :
    Agree m' n' f g :=
  fun j hj hj' => h j (Nat.le_trans hm hj) (Nat.lt_of_lt_of_le hj' hn)

theorem Agree.label (h : Agree m n f g) (hm : m ≤ j) (hn : j < n) : f.label j = g.label j := by
  rw [Forest.label, h j hm hn, Forest.label]

theorem Agree.parent (h : Agree m n f g) (hm : m ≤ j) (hn : j < n) : f.parent j = g.parent j := by
  rw [Forest.parent, h j hm hn, Forest.parent]

theorem Agree.children (h : Agree m n f g) (hm : m ≤ j) (hn : j < n) :
    f.children j = g.children j := by
  rw [Forest.children, h j hm hn, Forest.children]

/-- A new node is no old one. -/
theorem agree_push (f : Forest) (x : Node) : Agree 0 f.size (f.push x) f := by
  intro j _ hj
  rw [get_push, if_neg (Nat.ne_of_lt hj)]

/-- A list of children counts for one node. -/
theorem agree_modifyChildren (f : Forest) {i : NodeId} (h : List NodeId → List NodeId)
    (hi : i < m ∨ n ≤ i) : Agree m n (f.modifyChildren i h) f := by
  intro j hm hn
  refine get_modify_ne ?_
  rintro rfl
  rcases hi with hi | hi
  · exact Nat.not_le_of_lt hi hm
  · exact Nat.not_le_of_lt hn hi

end Reading

mutual

theorem planted_plant (f : Forest) (parent : Option NodeId) (t : Tree) :
    Planted f parent t (f.plant parent t) := by
  match t with
  | .node label ts =>
    have hall := plantedAll_plantAll (f.push { label := label, parent := parent }) f.size ts
    obtain ⟨hsize, hagree, hmem, hnodup, hcoherent, htrees⟩ := hall
    rw [plant]
    generalize plantAll (f.push { label := label, parent := parent }) f.size ts = r at *
    obtain ⟨cs, g⟩ := r
    simp only [size_push] at *
    have hlt : f.size < g.size := hsize
    have hself : f.size < f.size + 1 := Nat.lt_succ_self _
    have hgrown := (hagree.mono (Nat.le_refl 0) (Nat.le_of_lt hself)).trans (agree_push f _)
    refine ⟨rfl, ?_, ?_, ?_, fun hf hp => ?_, fun h hh depth hdepth => ?_⟩
    · rw [size_modifyChildren]
      exact hlt
    · exact (agree_modifyChildren g _ (.inr (Nat.le_refl _))).trans hgrown
    · rw [parent_modifyChildren, hagree.parent (Nat.zero_le _) hself, parent_push, if_pos rfl]
    · exact (hcoherent (hf.push hp) hself).modifyChildren (g := fun _ => cs)
        (fun c hc => (hmem c hc).2) hnodup
    · simp only [size_modifyChildren] at hh hdepth
      cases depth with
      | zero => omega
      | succ depth =>
        have hbelow : Agree (f.size + 1) g.size h g :=
          (hh.mono (Nat.le_of_lt hself) (Nat.le_refl _)).trans
            (agree_modifyChildren g _ (.inl hself))
        rw [treeTo, hh.label (Nat.le_refl _) hlt, hh.children (Nat.le_refl _) hlt,
          label_modifyChildren, children_modifyChildren, if_pos ⟨rfl, hlt⟩,
          hagree.label (Nat.zero_le _) hself, label_push, if_pos rfl,
          htrees h hbelow depth (by omega)]

theorem plantedAll_plantAll (f : Forest) (parent : NodeId) (ts : List Tree) :
    PlantedAll f parent ts (f.plantAll parent ts) := by
  match ts with
  | [] =>
    exact ⟨Nat.le_refl _, fun _ _ _ => rfl, fun _ h => absurd h List.not_mem_nil, List.nodup_nil,
      fun hf _ => hf, fun _ _ _ _ => rfl⟩
  | t :: ts =>
    have hfirst := planted_plant f (some parent) t
    have hrest := plantedAll_plantAll (f.plant (some parent) t).2 parent ts
    rw [plantAll]
    generalize f.plant (some parent) t = r at *
    obtain ⟨i, g⟩ := r
    dsimp only at *
    generalize g.plantAll parent ts = s at *
    obtain ⟨is, g'⟩ := s
    obtain ⟨rfl, hlt, hagree, hparent, hcoherent, htree⟩ := hfirst
    obtain ⟨hsize, hagree', hmem', hnodup', hcoherent', htrees'⟩ := hrest
    dsimp only at *
    refine ⟨Nat.le_trans (Nat.le_of_lt hlt) hsize,
      (hagree'.mono (Nat.le_refl 0) (Nat.le_of_lt hlt)).trans hagree, ?_, ?_, ?_, ?_⟩
    · intro c hc
      rcases List.mem_cons.1 hc with rfl | hc
      · exact ⟨Nat.le_refl _, (hagree'.parent (Nat.zero_le _) hlt).trans hparent⟩
      · exact ⟨Nat.le_trans (Nat.le_of_lt hlt) (hmem' c hc).1, (hmem' c hc).2⟩
    · refine List.nodup_cons.2 ⟨fun h => ?_, hnodup'⟩
      exact Nat.not_le_of_lt hlt (hmem' _ h).1
    · intro hf hp
      refine hcoherent' (hcoherent hf fun p h => ?_) (Nat.lt_trans hp hlt)
      cases h
      exact hp
    · intro h hh depth hdepth
      dsimp only at hdepth
      have hnew : Agree f.size g.size h g :=
        (hh.mono (Nat.le_refl _) hsize).trans (hagree'.mono (Nat.zero_le _) (Nat.le_refl _))
      rw [List.map_cons, htree h hnew depth (by omega),
        htrees' h (hh.mono (Nat.le_of_lt hlt) (Nat.le_refl _)) depth (by omega)]

end

/-- The tree that was planted is the one that is seen, also after others were planted. -/
theorem Planted.tree_eq {f g : Forest} {parent : Option NodeId} {t : Tree} {r : NodeId × Forest}
    (h : Planted f parent t r) (hg : Agree f.size r.2.size g r.2) (hsize : r.2.size ≤ g.size) :
    g.tree r.1 = t :=
  h.treeTo_eq g hg g.size (Nat.le_trans hsize (Nat.le_add_left ..))

end ReportTree.Forest
