import ReportTree.Proofs.Forest.Row

/-!
# Ranked forests

Where no way down is endless the nodes have ranks that fall from a node to those that it lists. Then
no node is below itself, nothing is below two children of a node, and the tree that is seen below a
node is the whole of it.

* `Coherent.within_or_within`: of two nodes above a node, one is above the other.
* `Ranked.tree_eq`: the tree below a node is the node and the trees below its children.
* `Ranked.exists_holds`: a coherent ranked forest holds a row below each of its nodes.
-/

namespace ReportTree.Forest

/-- The rank falls from a node to those that it lists, and there are no more ranks than nodes. -/
structure Ranked (f : Forest) (rank : NodeId → Nat) : Prop where
  lt : ∀ i, ∀ c ∈ f.children i, rank c < rank i
  le : ∀ i, rank i ≤ f.size - 1

variable {f : Forest} {rank : NodeId → Nat} {i j a b c : NodeId}

/-! ## Ways down -/

/-- A node has one way up, on which all nodes above it stand. -/
theorem Coherent.within_or_within (hf : f.Coherent) (ha : f.Within a j) (hb : f.Within b j) :
    f.Within a b ∨ f.Within b a := by
  induction ha with
  | refl => exact .inr hb
  | @tail k j hak hj ih =>
    rcases hb.cases_tail with rfl | ⟨k', hbk, hj'⟩
    · exact .inl (hak.tail hj)
    · rw [hf.eq_of_mem hj' hj] at hbk
      exact ih hbk

theorem Ranked.le_of_within (hr : f.Ranked rank) (h : f.Within i j) : rank j ≤ rank i := by
  induction h with
  | refl => exact Nat.le_refl _
  | tail _ hc ih => exact Nat.le_trans (Nat.le_of_lt (hr.lt _ _ hc)) ih

/-- What is below a child is not the node itself. -/
theorem Ranked.ne_of_within (hr : f.Ranked rank) (hc : c ∈ f.children i) (h : f.Within c j) :
    i ≠ j := by
  rintro rfl
  exact Nat.not_le_of_lt (hr.lt i c hc) (hr.le_of_within h)

/-- No child is below another one. -/
theorem Ranked.eq_of_within (hr : f.Ranked rank) (hf : f.Coherent) (ha : a ∈ f.children i)
    (hb : b ∈ f.children i) (h : f.Within a b) : a = b := by
  rcases h.cases_tail with rfl | ⟨k, hak, hk⟩
  · rfl
  · rw [hf.eq_of_mem hk hb] at hak
    exact absurd rfl (hr.ne_of_within ha hak)

/-- Nothing is below two children of a node. -/
theorem Ranked.apart_children (hr : f.Ranked rank) (hf : f.Coherent) (i : NodeId) :
    (f.children i).Pairwise fun a b => ∀ j, f.Within a j → ¬f.Within b j := by
  refine (hf.nodup i).imp_of_mem fun {a b} ha hb hab j haj hbj => ?_
  rcases hf.within_or_within haj hbj with h | h
  · exact hab (hr.eq_of_within hf ha hb h)
  · exact hab (hr.eq_of_within hf hb ha h).symm

theorem Ranked.lt_size (hr : f.Ranked rank) (hi : i < f.size) : rank i < f.size :=
  Nat.lt_of_le_of_lt (hr.le i) (Nat.sub_one_lt_of_lt hi)

theorem Ranked.children_eq_nil (hr : f.Ranked rank) (h : rank i ≤ 0) : f.children i = [] := by
  refine List.eq_nil_iff_forall_not_mem.2 fun c hc => ?_
  have hlt := hr.lt i c hc
  omega

/-! ## Trees -/

/-- Levels beyond the rank of a node show nothing more. -/
theorem Ranked.treeTo_eq (hr : f.Ranked rank) {depth depth' : Nat} (h : rank i ≤ depth)
    (h' : rank i ≤ depth') : treeTo depth f i = treeTo depth' f i := by
  induction depth generalizing i depth' with
  | zero =>
    cases depth' with
    | zero => rfl
    | succ depth' => rw [treeTo, treeTo, hr.children_eq_nil h, List.map_nil]
  | succ depth ih =>
    cases depth' with
    | zero => rw [treeTo, treeTo, hr.children_eq_nil h', List.map_nil]
    | succ depth' =>
      rw [treeTo, treeTo]
      congr 1
      refine List.map_congr_left fun c hc => ?_
      have hlt := hr.lt i c hc
      exact ih (by omega) (by omega)

/-- The tree below a node is the node and the trees below those that it lists. -/
theorem Ranked.tree_eq (hr : f.Ranked rank) (i : NodeId) :
    f.tree i = .node (f.label i) ((f.children i).map f.tree) := by
  have hle : rank i ≤ f.size := Nat.le_trans (hr.le i) (Nat.sub_le ..)
  rw [tree, hr.treeTo_eq hle (Nat.le_succ_of_le hle), treeTo]
  rfl

theorem Ranked.children_tree (hr : f.Ranked rank) (i : NodeId) :
    (f.tree i).children = (f.children i).map f.tree := by
  rw [hr.tree_eq]
  rfl

/-! ## Rows -/

/-- Nodes of which each has a row below it are the heads of a row. -/
theorem exists_lists_of_forall {is : List NodeId}
    (h : ∀ i ∈ is, ∃ below : Row, below.heads = f.children i ∧ f.Lists below) :
    ∃ w : Row, w.heads = is ∧ f.Lists w := by
  induction is with
  | nil => exact ⟨.nil, rfl, trivial⟩
  | cons i is ih =>
    obtain ⟨below, hheads, hbelow⟩ := h i List.mem_cons_self
    obtain ⟨rest, rfl, hrest⟩ := ih fun j hj => h j (List.mem_cons_of_mem i hj)
    exact ⟨.cons i below rest, rfl, hheads.symm, hbelow, hrest⟩

theorem Ranked.exists_lists_children (hr : f.Ranked rank) (i : NodeId) :
    ∃ below : Row, below.heads = f.children i ∧ f.Lists below := by
  induction h : rank i using Nat.strongRecOn generalizing i with
  | _ n ih =>
    subst h
    exact exists_lists_of_forall fun c hc => ih (rank c) (hr.lt i c hc) c rfl

theorem Lists.nodup (hr : f.Ranked rank) (hf : f.Coherent) {w : Row} (h : f.Lists w)
    (hnodup : w.heads.Nodup) (hapart : ∀ a ∈ w.heads, ∀ b ∈ w.heads, f.Within a b → a = b) :
    w.nodes.Nodup := by
  induction w with
  | nil => exact List.nodup_nil
  | cons i below rest hbelow hrest =>
    obtain ⟨hchildren, hlists, hrestlists⟩ := h
    rw [Row.heads, List.nodup_cons] at hnodup
    simp only [Row.heads, List.mem_cons] at hapart
    -- What is below `i` is within a child of `i`.
    have hwithin {j : NodeId} (hj : j ∈ below.nodes) : ∃ c ∈ f.children i, f.Within c j := by
      rw [hchildren]
      exact hlists.exists_within_iff.2 hj
    have hdisjoint {j : NodeId} (hij : f.Within i j) : j ∉ rest.nodes := by
      intro hj
      obtain ⟨b, hb, hbj⟩ := hrestlists.exists_within_iff.2 hj
      have hib : i = b := by
        rcases hf.within_or_within hij hbj with h | h
        · exact hapart i (.inl rfl) b (.inr hb) h
        · exact (hapart b (.inr hb) i (.inl rfl) h).symm
      exact hnodup.1 (hib ▸ hb)
    rw [Row.nodes, List.nodup_cons, List.nodup_append, List.mem_append, not_or]
    refine ⟨⟨fun hi => ?_, hdisjoint .refl⟩, ?_, ?_, fun j hj k hk => ?_⟩
    · obtain ⟨c, hc, hci⟩ := hwithin hi
      exact hr.ne_of_within hc hci rfl
    · refine hbelow hlists (hchildren ▸ hf.nodup i) fun a ha b hb h => ?_
      rw [← hchildren] at ha hb
      exact hr.eq_of_within hf ha hb h
    · exact hrest hrestlists hnodup.2 fun a ha b hb => hapart a (.inr ha) b (.inr hb)
    · rintro rfl
      obtain ⟨c, hc, hcj⟩ := hwithin hj
      exact hdisjoint (.head hc hcj) hk

theorem Ranked.exists_holds (hr : f.Ranked rank) (hf : f.Coherent) (hi : i < f.size) :
    ∃ below : Row, f.Holds (.cons i below .nil) := by
  obtain ⟨below, hheads, hbelow⟩ := hr.exists_lists_children i
  have hlists : f.Lists (.cons i below .nil) := ⟨hheads.symm, hbelow, trivial⟩
  refine ⟨below, hlists, hlists.nodup hr hf (List.nodup_singleton i) ?_, fun j hj => ?_⟩
  · intro a ha b hb _
    rw [List.mem_singleton.1 ha, List.mem_singleton.1 hb]
  · rcases ((hlists.within_iff rfl).2 hj).cases_tail with rfl | ⟨k, -, hk⟩
    · exact hi
    · exact hf.child_lt hk

end ReportTree.Forest
