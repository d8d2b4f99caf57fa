import ReportTree.Forest.Merge
import ReportTree.Forest.Move
import ReportTree.Forest.Outline

/-!
# How a forest reads after a change

For every change, the size, parents, children and labels of the changed forest. A node that is not
there reads as `default`, before the change and after it, so most of this needs no bound.

* `get_modify_eq`, `get_push`: the two changes that all others are made of.
* `absorbOnlyChild_cases`, `absorbOnlyChild_spec`, `label_absorbOnlyChild`: what is left of an only
  child.
* `children_attach`, `parent_attach`: where a node is after it was put below another.
-/

namespace ReportTree.Forest

variable {f : Forest} {i j c : NodeId}

/-- A change of a node that is not there is none. -/
theorem get_modify_eq {g : Node → Node} :
    (f.modify i g).get j = if i = j ∧ i < f.size then g (f.get j) else f.get j := by
  by_cases hi : i < f.size
  · simp only [get_modify hi, hi, and_true]
  · have hsize : (f.modify i g).size ≤ i := by
      rw [size_modify]
      exact Nat.le_of_not_lt hi
    rw [if_neg fun h => hi h.2]
    by_cases hij : i = j
    · subst hij
      rw [get_of_size_le hsize, get_of_size_le (Nat.le_of_not_lt hi)]
    · exact get_modify_ne hij

/-- Forests that read the same are equal. -/
theorem eq_of_reads {g : Forest} (hsize : g.size = f.size) (hlabel : ∀ j, g.label j = f.label j)
    (hparent : ∀ j, g.parent j = f.parent j) (hchildren : ∀ j, g.children j = f.children j) :
    g = f := by
  have hget (j : NodeId) : g.get j = f.get j := by
    calc g.get j = ⟨g.label j, g.parent j, g.children j⟩ := rfl
      _ = ⟨f.label j, f.parent j, f.children j⟩ := by rw [hlabel, hparent, hchildren]
      _ = f.get j := rfl
  suffices h : g.nodes = f.nodes by
    cases g
    cases f
    exact congrArg _ h
  refine Array.ext hsize fun j hg hf => ?_
  have h := hget j
  unfold get at h
  simpa [hg, hf] using h

/-! ## Absent nodes -/

theorem parent_of_size_le (h : f.size ≤ i) : f.parent i = none := by
  rw [parent, get_of_size_le h]
  rfl

theorem children_of_size_le (h : f.size ≤ i) : f.children i = [] := by
  rw [children, get_of_size_le h]
  rfl

theorem label_of_size_le (h : f.size ≤ i) : f.label i = { name := [] } := by
  rw [label, get_of_size_le h]
  rfl

/-- What has a parent is there. -/
theorem lt_size_of_parent_eq {p : NodeId} (h : f.parent i = some p) : i < f.size := by
  refine Nat.lt_of_not_le fun hi => ?_
  rw [parent_of_size_le hi] at h
  cases h

/-- What lists a node is there. -/
theorem lt_size_of_mem_children (h : c ∈ f.children i) : i < f.size := by
  refine Nat.lt_of_not_le fun hi => ?_
  rw [children_of_size_le hi] at h
  cases h

/-! ## Labels -/

section ModifyLabel

variable {g : Label → Label}

@[simp] theorem size_modifyLabel : (f.modifyLabel i g).size = f.size := size_modify ..

@[simp] theorem parent_modifyLabel : (f.modifyLabel i g).parent j = f.parent j := by
  rw [parent, modifyLabel, get_modify_eq]
  split <;> rfl

@[simp] theorem children_modifyLabel : (f.modifyLabel i g).children j = f.children j := by
  rw [children, modifyLabel, get_modify_eq]
  split <;> rfl

theorem label_modifyLabel :
    (f.modifyLabel i g).label j = if i = j ∧ i < f.size then g (f.label j) else f.label j := by
  rw [label, modifyLabel, get_modify_eq]
  split <;> rfl

theorem level_showLevel {l : Level} :
    (f.showLevel i l).level j = if i = j ∧ i < f.size then l else f.level j := by
  rw [level, showLevel, label_modifyLabel]
  split <;> rfl

/-- A change that leaves the level of every label alone leaves that of every node alone. -/
theorem level_modifyLabel (hg : ∀ x, (g x).level = x.level) :
    (f.modifyLabel i g).level j = f.level j := by
  rw [level, label_modifyLabel]
  split
  · exact hg _
  · rfl

theorem label_setIcon {icon : Text} :
    (f.setIcon i icon).label j =
      if i = j ∧ i < f.size then { f.label j with icon := icon } else f.label j :=
  label_modifyLabel

end ModifyLabel

/-! ## Lists of children -/

section ModifyChildren

variable {g : List NodeId → List NodeId}

@[simp] theorem size_modifyChildren : (f.modifyChildren i g).size = f.size := size_modify ..

@[simp] theorem label_modifyChildren : (f.modifyChildren i g).label j = f.label j := by
  rw [label, modifyChildren, get_modify_eq]
  split <;> rfl

@[simp] theorem level_modifyChildren : (f.modifyChildren i g).level j = f.level j :=
  congrArg Label.level label_modifyChildren

@[simp] theorem parent_modifyChildren : (f.modifyChildren i g).parent j = f.parent j := by
  rw [parent, modifyChildren, get_modify_eq]
  split <;> rfl

theorem children_modifyChildren :
    (f.modifyChildren i g).children j =
      if i = j ∧ i < f.size then g (f.children j) else f.children j := by
  rw [children, modifyChildren, get_modify_eq]
  split <;> rfl

/-- A node that is not there lists nothing, and keeps to it. -/
theorem children_modifyChildren_of_nil (hg : g [] = []) :
    (f.modifyChildren i g).children j = if i = j then g (f.children j) else f.children j := by
  rw [children_modifyChildren]
  by_cases hij : i = j
  · subst hij
    by_cases hi : i < f.size
    · rw [if_pos ⟨rfl, hi⟩, if_pos rfl]
    · rw [if_neg fun h => hi h.2, if_pos rfl, children_of_size_le (Nat.le_of_not_lt hi), hg]
  · rw [if_neg fun h => hij h.1, if_neg hij]

end ModifyChildren

/-! ## Parents -/

section SetParent

variable {p : Option NodeId}

@[simp] theorem size_setParent : (f.setParent i p).size = f.size := size_modify ..

@[simp] theorem label_setParent : (f.setParent i p).label j = f.label j := by
  rw [label, setParent, get_modify_eq]
  split <;> rfl

@[simp] theorem children_setParent : (f.setParent i p).children j = f.children j := by
  rw [children, setParent, get_modify_eq]
  split <;> rfl

theorem parent_setParent :
    (f.setParent i p).parent j = if i = j ∧ i < f.size then p else f.parent j := by
  rw [parent, setParent, get_modify_eq]
  split <;> rfl

/-- Several nodes get the same parent. -/
theorem setParents_spec {is : List NodeId} {f g : Forest}
    (hg : is.foldl (fun f i => f.setParent i p) f = g) :
    g.size = f.size ∧ (∀ j, g.label j = f.label j) ∧ (∀ j, g.children j = f.children j) ∧
      ∀ j, g.parent j = if j ∈ is ∧ j < f.size then p else f.parent j := by
  induction is generalizing f with
  | nil =>
    subst hg
    simp
  | cons i is ih =>
    obtain ⟨hsize, hlabel, hchildren, hparent⟩ := ih hg
    refine ⟨by rw [hsize, size_setParent], fun j => by rw [hlabel, label_setParent],
      fun j => by rw [hchildren, children_setParent], fun j => ?_⟩
    rw [hparent, size_setParent, parent_setParent]
    by_cases hj : j ∈ is ∧ j < f.size
    · rw [if_pos hj, if_pos ⟨List.mem_cons_of_mem _ hj.1, hj.2⟩]
    · rw [if_neg hj]
      by_cases hij : i = j
      · subst hij
        simp only [true_and, List.mem_cons, true_or]
      · rw [if_neg fun h => hij h.1, if_neg fun h => ?_]
        rcases List.mem_cons.1 h.1 with rfl | hmem
        · exact hij rfl
        · exact hj ⟨hmem, h.2⟩

end SetParent

/-! ## New nodes -/

section Push

variable {n : Node}

theorem label_push : (f.push n).label j = if j = f.size then n.label else f.label j := by
  rw [label, get_push]
  split <;> rfl

theorem level_push : (f.push n).level j = if j = f.size then n.label.level else f.level j := by
  rw [level, label_push]
  split <;> rfl

theorem parent_push : (f.push n).parent j = if j = f.size then n.parent else f.parent j := by
  rw [parent, get_push]
  split <;> rfl

theorem children_push :
    (f.push n).children j = if j = f.size then n.children else f.children j := by
  rw [children, get_push]
  split <;> rfl

end Push

section AddRoot

variable {name : Text}

@[simp] theorem size_addRoot : (f.addRoot name).2.size = f.size + 1 := size_push ..

theorem label_addRoot :
    (f.addRoot name).2.label j = if j = f.size then { name := name } else f.label j :=
  label_push

/-- A root has no links, as a node that is not there. -/
@[simp] theorem parent_addRoot : (f.addRoot name).2.parent j = f.parent j := by
  rw [addRoot, parent_push]
  split
  · next hj => rw [hj, parent_of_size_le (Nat.le_refl _)]
  · rfl

@[simp] theorem children_addRoot : (f.addRoot name).2.children j = f.children j := by
  rw [addRoot, children_push]
  split
  · next hj => rw [hj, children_of_size_le (Nat.le_refl _)]
  · rfl

end AddRoot

section AddBelow

variable {x : Label}

@[simp] theorem addBelow_fst : (f.addBelow i x).1 = f.size := rfl

@[simp] theorem size_addBelow : (f.addBelow i x).2.size = f.size + 1 := by
  rw [addBelow, appendChild, size_modifyChildren, size_push]

theorem lt_size_addBelow : f.size < (f.addBelow i x).2.size :=
  Nat.lt_of_lt_of_eq (Nat.lt_succ_self _) size_addBelow.symm

theorem parent_addBelow :
    (f.addBelow i x).2.parent j = if j = f.size then some i else f.parent j := by
  rw [addBelow, appendChild, parent_modifyChildren, parent_push]

theorem label_addBelow :
    (f.addBelow i x).2.label j = if j = f.size then x else f.label j := by
  rw [addBelow, appendChild, label_modifyChildren, label_push]

theorem level_addBelow :
    (f.addBelow i x).2.level j = if j = f.size then x.level else f.level j := by
  rw [addBelow, appendChild, level_modifyChildren, level_push]

theorem children_addBelow (hi : i < f.size) :
    (f.addBelow i x).2.children j = if i = j then f.children j ++ [f.size] else f.children j := by
  rw [addBelow, appendChild, children_modifyChildren, size_push, children_push]
  by_cases hij : i = j
  · subst hij
    rw [if_pos ⟨rfl, Nat.lt_succ_of_lt hi⟩, if_pos rfl, if_neg (Nat.ne_of_lt hi)]
  · rw [if_neg fun h => hij h.1, if_neg hij]
    split
    · next h =>
      subst h
      rw [children_of_size_le (Nat.le_refl _)]
    · rfl

end AddBelow

/-! ## Raising -/

theorem links_raiseFrom (l : Level) (steps : Nat) (i : NodeId) (f : Forest) (j : NodeId) :
    (raiseFrom l steps i f).parent j = f.parent j ∧
      (raiseFrom l steps i f).children j = f.children j := by
  induction steps generalizing i f with
  | zero => exact ⟨rfl, rfl⟩
  | succ steps ih =>
    have hshow : (f.showLevel i l).parent j = f.parent j ∧
        (f.showLevel i l).children j = f.children j :=
      ⟨parent_modifyLabel, children_modifyLabel⟩
    simp only [raiseFrom]
    split
    · exact hshow
    · split
      · rw [(ih ..).1, (ih ..).2]
        exact hshow
      · exact hshow

/-- Raising changes nothing but levels. -/
theorem label_raiseFrom (l : Level) (steps : Nat) (i : NodeId) (f : Forest) (j : NodeId) :
    (raiseFrom l steps i f).label j =
      { f.label j with level := (raiseFrom l steps i f).level j } := by
  have hshow (f : Forest) (i : NodeId) :
      (f.showLevel i l).label j = { f.label j with level := (f.showLevel i l).level j } := by
    rw [level, showLevel, label_modifyLabel]
    split <;> rfl
  induction steps generalizing i f with
  | zero => rfl
  | succ steps ih =>
    simp only [raiseFrom]
    split
    · exact hshow f i
    · split
      · rw [ih, hshow f i]
      · exact hshow f i

theorem label_raise {l : Level} :
    (f.raise i l).label j = { f.label j with level := (f.raise i l).level j } :=
  label_raiseFrom ..

@[simp] theorem parent_raise {l : Level} : (f.raise i l).parent j = f.parent j :=
  (links_raiseFrom ..).1

@[simp] theorem children_raise {l : Level} : (f.raise i l).children j = f.children j :=
  (links_raiseFrom ..).2

/-! ## Merging -/

theorem children_sortChildren :
    (f.sortChildren i).children j =
      if i = j then (f.children j).mergeSort fun a b => (f.label a).name.le (f.label b).name
      else f.children j :=
  children_modifyChildren_of_nil List.mergeSort_nil

/-- The same nodes are listed, in another order. -/
theorem mem_children_sortChildren_iff :
    c ∈ (f.sortChildren i).children j ↔ c ∈ f.children j := by
  rw [children_sortChildren]
  split
  · exact List.mem_mergeSort
  · rfl

/-- An only child is absorbed: its list is empty then, and its children are those of `i`. -/
theorem absorbOnlyChild_spec (sep : Text) (h : f.children i = [c]) {g : Forest}
    (hg : f.absorbOnlyChild i sep = g) :
    g.size = f.size ∧ (∀ j, g.level j = f.level j) ∧
      (∀ j, g.children j = if i = j then f.children c else if c = j then [] else f.children j) ∧
      ∀ j, g.parent j = if j ∈ f.children c ∧ j < f.size then some i else f.parent j := by
  have hi : i < f.size := lt_size_of_mem_children (h ▸ List.mem_singleton_self c)
  simp only [absorbOnlyChild, h] at hg
  obtain ⟨hsize, hlabel, hchildren, hparent⟩ := setParents_spec hg
  simp only [size_modifyChildren, size_modifyLabel, parent_modifyChildren, parent_modifyLabel]
    at hsize hparent
  refine ⟨hsize, fun j => ?_, fun j => ?_, hparent⟩
  · simp only [level, hlabel, label_modifyChildren, label_modifyLabel]
    split <;> rfl
  · rw [hchildren, children_modifyChildren, size_modifyLabel, size_modifyChildren,
      children_modifyLabel, children_modifyChildren]
    by_cases hij : i = j
    · rw [if_pos ⟨hij, hi⟩, if_pos hij]
    · rw [if_neg fun h => hij h.1, if_neg hij]
      by_cases hcj : c = j
      · subst hcj
        by_cases hc : c < f.size
        · rw [if_pos ⟨rfl, hc⟩, if_pos rfl]
        · rw [if_neg fun h => hc h.2, if_pos rfl, children_of_size_le (Nat.le_of_not_lt hc)]
      · rw [if_neg fun h => hcj h.1, if_neg hcj]

/-- The node that absorbs takes over the name, and no other label changes. -/
theorem label_absorbOnlyChild (sep : Text) (h : f.children i = [c]) :
    (f.absorbOnlyChild i sep).label j =
      if i = j then { f.label j with name := (f.label j).name ++ sep ++ (f.label c).name }
      else f.label j := by
  have hi : i < f.size := lt_size_of_mem_children (h ▸ List.mem_singleton_self c)
  obtain ⟨g, hg⟩ : ∃ g, f.absorbOnlyChild i sep = g := ⟨_, rfl⟩
  rw [hg]
  simp only [absorbOnlyChild, h] at hg
  rw [(setParents_spec hg).2.1, label_modifyChildren, label_modifyLabel, size_modifyChildren,
    label_modifyChildren]
  simp only [hi, and_true]

/-- A node absorbs an only child, or nothing happens. -/
theorem absorbOnlyChild_cases (f : Forest) (i : NodeId) (sep : Text) :
    f.absorbOnlyChild i sep = f ∨ ∃ c, f.children i = [c] := by
  cases hcs : f.children i with
  | nil => exact .inl (by rw [absorbOnlyChild, hcs])
  | cons c cs =>
    cases cs with
    | nil => exact .inr ⟨c, rfl⟩
    | cons d cs => exact .inl (by rw [absorbOnlyChild, hcs])

/-! ## Moving -/

section Attach

variable {target : NodeId}

@[simp] theorem size_attach : (f.attach i target).size = f.size := by
  rw [attach, appendChild, size_modifyChildren, size_setParent]

@[simp] theorem label_attach : (f.attach i target).label j = f.label j := by
  rw [attach, appendChild, label_modifyChildren, label_setParent]

@[simp] theorem level_attach : (f.attach i target).level j = f.level j :=
  congrArg Label.level label_attach

theorem parent_attach :
    (f.attach i target).parent j = if i = j ∧ i < f.size then some target else f.parent j := by
  rw [attach, appendChild, parent_modifyChildren, parent_setParent]

theorem children_attach (ht : target < f.size) :
    (f.attach i target).children j =
      if target = j then f.children j ++ [i] else f.children j := by
  rw [attach, appendChild, children_modifyChildren, size_setParent, children_setParent]
  simp only [ht, and_true]

end Attach

end ReportTree.Forest
