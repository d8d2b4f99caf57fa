import Mathlib.Data.List.Nodup
import ReportTree.Proofs.Forest.Lookup

/-!
# Coherent forests

In a coherent forest the parent of a listed node is the node that lists it, and nothing is listed
twice. A node that is listed nowhere may still name a parent, as an absorbed child does.

* `Coherent.modifyLabel`, `Coherent.raise`, `Coherent.addBelow`, `Coherent.sortChildren`,
  `Coherent.absorbOnlyChild`: changes that keep a forest coherent.
* `Coherent.move`: so does moving a node, which leaves its old list first.
-/

namespace ReportTree.Forest

/-- The links of a forest agree, and no node stands in two places. -/
structure Coherent (f : Forest) : Prop where
  /-- What is named as a parent is there. -/
  parent_lt : ∀ {i p}, f.parent i = some p → p < f.size
  /-- A listed node names the node that lists it. -/
  parent_eq : ∀ {i c}, c ∈ f.children i → f.parent c = some i
  /-- No node is listed twice. -/
  nodup : ∀ i, (f.children i).Nodup

variable {f : Forest} {i c : NodeId}

theorem coherent_empty : empty.Coherent where
  parent_lt h := absurd (lt_size_of_parent_eq h) (Nat.not_lt_zero _)
  parent_eq h := absurd (lt_size_of_mem_children h) (Nat.not_lt_zero _)
  nodup i := by
    rw [children_of_size_le (Nat.zero_le i)]
    exact List.nodup_nil

/-- What is listed is there. -/
theorem Coherent.child_lt (hf : f.Coherent) (hc : c ∈ f.children i) : c < f.size :=
  lt_size_of_parent_eq (hf.parent_eq hc)

/-- Two nodes that list the same node are one. -/
theorem Coherent.eq_of_mem (hf : f.Coherent) {j : NodeId} (hi : c ∈ f.children i)
    (hj : c ∈ f.children j) : i = j := by
  have h := (hf.parent_eq hi).symm.trans (hf.parent_eq hj)
  cases h
  rfl

/-- A node without a parent is listed nowhere. -/
theorem Coherent.not_mem_children (hf : f.Coherent) (hc : f.parent c = none) :
    c ∉ f.children i := by
  intro hmem
  rw [hf.parent_eq hmem] at hc
  cases hc

/-- Forests with the same links are coherent alike. -/
theorem Coherent.congr {g : Forest} (hf : f.Coherent) (hsize : g.size = f.size)
    (hparent : ∀ j, g.parent j = f.parent j) (hchildren : ∀ j, g.children j = f.children j) :
    g.Coherent where
  parent_lt {j p} h := by
    rw [hparent] at h
    rw [hsize]
    exact hf.parent_lt h
  parent_eq {j c} h := by
    rw [hchildren] at h
    rw [hparent]
    exact hf.parent_eq h
  nodup j := by
    rw [hchildren]
    exact hf.nodup j

theorem Coherent.modifyLabel (hf : f.Coherent) (g : Label → Label) :
    (f.modifyLabel i g).Coherent :=
  hf.congr size_modifyLabel (fun _ => parent_modifyLabel) fun _ => children_modifyLabel

theorem Coherent.raise (hf : f.Coherent) (l : Level) : (f.raise i l).Coherent :=
  hf.congr (size_raise ..) (fun _ => parent_raise) fun _ => children_raise

/-- A node without children is made, which is listed nowhere. -/
theorem Coherent.push (hf : f.Coherent) {x : Label} {p : Option NodeId}
    (hp : ∀ j ∈ p, j < f.size) : (f.push { label := x, parent := p }).Coherent where
  parent_lt {j q} h := by
    rw [size_push]
    rw [parent_push] at h
    split at h
    · exact Nat.lt_succ_of_lt (hp q h)
    · exact Nat.lt_succ_of_lt (hf.parent_lt h)
  parent_eq {j c} h := by
    rw [children_push] at h
    split at h
    · cases h
    · rw [parent_push, if_neg (Nat.ne_of_lt (hf.child_lt h))]
      exact hf.parent_eq h
  nodup j := by
    rw [children_push]
    split
    · exact List.nodup_nil
    · exact hf.nodup j

theorem Coherent.addRoot (hf : f.Coherent) (name : Text) : (f.addRoot name).2.Coherent :=
  hf.push fun _ h => by cases h

/-- A list of children may become another one of nodes that name the parent. -/
theorem Coherent.modifyChildren (hf : f.Coherent) {g : List NodeId → List NodeId}
    (hparent : ∀ c ∈ g (f.children i), f.parent c = some i) (hnodup : (g (f.children i)).Nodup) :
    (f.modifyChildren i g).Coherent where
  parent_lt {j p} h := by
    rw [parent_modifyChildren] at h
    rw [size_modifyChildren]
    exact hf.parent_lt h
  parent_eq {j c} h := by
    rw [parent_modifyChildren]
    rw [children_modifyChildren] at h
    split at h
    · next hij =>
      obtain ⟨rfl, -⟩ := hij
      exact hparent c h
    · exact hf.parent_eq h
  nodup j := by
    rw [children_modifyChildren]
    split
    · next hij =>
      obtain ⟨rfl, -⟩ := hij
      exact hnodup
    · exact hf.nodup j

theorem Coherent.sortChildren (hf : f.Coherent) : (f.sortChildren i).Coherent :=
  hf.modifyChildren (fun _ hc => hf.parent_eq (List.mem_mergeSort.1 hc))
    ((List.mergeSort_perm ..).nodup_iff.2 (hf.nodup i))

/-- A node that names the parent already may be put at the end of the list. -/
theorem Coherent.appendChild (hf : f.Coherent) (hc : f.parent c = some i)
    (hmem : c ∉ f.children i) : (f.appendChild i c).Coherent := by
  refine hf.modifyChildren (fun x hx => ?_) ?_
  · rcases List.mem_append.1 hx with hx | hx
    · exact hf.parent_eq hx
    · rw [List.mem_singleton.1 hx]
      exact hc
  · refine (hf.nodup i).append (List.nodup_singleton c) ?_
    rintro x hx hxc
    exact hmem (List.mem_singleton.1 hxc ▸ hx)

theorem Coherent.addBelow (hf : f.Coherent) (hi : i < f.size) {x : Label} :
    (f.addBelow i x).2.Coherent := by
  refine (hf.push (p := some i) ?_).appendChild ?_ ?_
  · rintro j hj
    cases hj
    exact hi
  · rw [parent_push, if_pos rfl]
  · rw [children_push, if_neg (Nat.ne_of_lt hi)]
    exact fun h => Nat.lt_irrefl _ (hf.child_lt h)

/-- A node that is listed nowhere may get another parent. -/
theorem Coherent.setParent (hf : f.Coherent) {p : Option NodeId} (hp : ∀ j ∈ p, j < f.size)
    (hmem : ∀ j, c ∉ f.children j) : (f.setParent c p).Coherent where
  parent_lt {j q} h := by
    rw [size_setParent]
    rw [parent_setParent] at h
    split at h
    · exact hp q h
    · exact hf.parent_lt h
  parent_eq {j x} h := by
    rw [children_setParent] at h
    have hne : c ≠ x := fun hcx => hmem j (hcx ▸ h)
    rw [parent_setParent, if_neg fun hcx => hne hcx.1]
    exact hf.parent_eq h
  nodup j := by
    rw [children_setParent]
    exact hf.nodup j

/-- A node that is listed nowhere may be put below any node. -/
theorem Coherent.attach (hf : f.Coherent) {target : NodeId} (hi : i < f.size)
    (ht : target < f.size) (hmem : ∀ j, i ∉ f.children j) : (f.attach i target).Coherent := by
  refine (hf.setParent ?_ hmem).appendChild ?_ ?_
  · rintro j hj
    cases hj
    exact ht
  · rw [parent_setParent, if_pos ⟨rfl, hi⟩]
  · rw [children_setParent]
    exact hmem target

/-- After a node was taken off the list of its parent it is listed nowhere. -/
theorem Coherent.not_mem_erase (hf : f.Coherent) {p : NodeId} (hp : f.parent i = some p)
    (j : NodeId) : i ∉ (f.modifyChildren p (·.erase i)).children j := by
  rw [children_modifyChildren]
  split
  · next hpj =>
    obtain ⟨rfl, -⟩ := hpj
    exact fun h => (hf.nodup p).not_mem_erase h
  · next hpj =>
    intro h
    have hj := hf.parent_eq h
    rw [hp] at hj
    cases hj
    exact hpj ⟨rfl, lt_size_of_mem_children h⟩

theorem Coherent.move (hf : f.Coherent) {target : NodeId} (hi : i < f.size) (ht : target < f.size)
    {g : Forest} (h : f.move i target = .ok g) : g.Coherent := by
  unfold Forest.move at h
  split at h
  · next hp =>
    cases h
    refine hf.attach hi ht fun j hj => ?_
    rw [hf.parent_eq hj] at hp
    cases hp
  · next p hp =>
    split at h
    · cases h
      have herase : (f.modifyChildren p (·.erase i)).Coherent :=
        hf.modifyChildren (fun x hx => hf.parent_eq (List.mem_of_mem_erase hx))
          ((hf.nodup p).erase i)
      refine herase.attach ?_ ?_ (hf.not_mem_erase hp)
      · rwa [size_modifyChildren]
      · rwa [size_modifyChildren]
    · cases h

/-- The children of an only child change over to `i`, so they are not listed by two nodes. -/
theorem Coherent.absorbOnlyChild (hf : f.Coherent) {sep : Text} :
    (f.absorbOnlyChild i sep).Coherent := by
  rcases f.absorbOnlyChild_cases i sep with hsame | ⟨c, hc⟩
  · rw [hsame]
    exact hf
  · obtain ⟨hsize, -, hchildren, hparent⟩ := absorbOnlyChild_spec sep hc rfl
    have hmem : c ∈ f.children i := hc ▸ List.mem_singleton_self c
    constructor
    case parent_lt =>
      intro j p h
      rw [hsize]
      rw [hparent] at h
      split at h
      · cases h
        exact lt_size_of_mem_children hmem
      · exact hf.parent_lt h
    case parent_eq =>
      intro j x h
      rw [hchildren] at h
      rw [hparent]
      split at h
      · next hij =>
        rw [if_pos ⟨h, hf.child_lt h⟩, hij]
      · split at h
        · cases h
        · next hcj =>
          rw [if_neg fun hx => hcj (hf.eq_of_mem hx.1 h)]
          exact hf.parent_eq h
    case nodup =>
      intro j
      rw [hchildren]
      split
      · exact hf.nodup c
      · split
        · exact List.nodup_nil
        · exact hf.nodup j

end ReportTree.Forest
