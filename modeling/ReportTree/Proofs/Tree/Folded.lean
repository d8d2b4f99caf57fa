import Mathlib.Data.List.Nodup
import ReportTree.Tree

/-!
# Trees with merged folders

Merging the folders of a tree, as a function of the tree: a folder absorbs an only child that is a
folder, as long as there is one, and what it lists then is put in the order of the names that it has
before it is merged itself. The order in which the children of a folder came does not matter.

* `Tree.folded`: the tree with its folders merged and sorted.
* `Tree.foldedBelow`: the same below a root that absorbs nothing.
* `Tree.folded_arranged`, `Tree.foldedBelow_arranged`: sorting everything first changes nothing.
-/

namespace ReportTree.Tree

variable {folder : Text} {t u : Tree} {ts us : List Tree}

/-! ## Order -/

/-- Trees in the order of the names of their roots. -/
def sorted (ts : List Tree) : List Tree := ts.mergeSort fun t u => t.label.name.le u.label.name

theorem mem_sorted : t ∈ sorted ts ↔ t ∈ ts := List.mem_mergeSort

theorem sorted_perm (ts : List Tree) : (sorted ts).Perm ts := List.mergeSort_perm ..

theorem pairwise_sorted (ts : List Tree) :
    (sorted ts).Pairwise fun t u => t.label.name.le u.label.name = true := by
  apply List.pairwise_mergeSort
  · intro t u v
    exact Text.le_trans t.label.name u.label.name v.label.name
  · intro t u
    exact Text.le_total t.label.name u.label.name

theorem sorted_sorted (ts : List Tree) : sorted (sorted ts) = sorted ts :=
  List.mergeSort_of_pairwise (pairwise_sorted ts)

/-- A change that keeps the names of the roots keeps the order. -/
theorem sorted_map {g : Tree → Tree} (hg : ∀ t, (g t).label.name = t.label.name) (ts : List Tree) :
    sorted (ts.map g) = (sorted ts).map g :=
  (List.map_mergeSort fun t _ u _ => by rw [hg, hg]).symm

/-- Trees that can be told apart by the names of their roots have one order. -/
theorem sorted_eq_of_perm (h : ts.Perm us)
    (hname : ∀ t ∈ ts, ∀ u ∈ us, t.label.name = u.label.name → t = u) : sorted ts = sorted us := by
  refine List.Perm.eq_of_pairwise (fun t u ht hu htu hut => ?_) (pairwise_sorted ts)
    (pairwise_sorted us) (((sorted_perm ts).trans h).trans (sorted_perm us).symm)
  exact hname t (mem_sorted.1 ht) u (mem_sorted.1 hu) (Text.le_antisymm htu hut)

/-- Trees with different names, and others with the same names and the same trees for them, have one
order. -/
theorem sorted_eq_of_names (ht : (ts.map fun t => t.label.name).Nodup)
    (hu : (us.map fun u => u.label.name).Nodup)
    (htu : ∀ t ∈ ts, ∃ u ∈ us, u.label.name = t.label.name)
    (hut : ∀ u ∈ us, ∃ t ∈ ts, t.label.name = u.label.name)
    (hname : ∀ t ∈ ts, ∀ u ∈ us, t.label.name = u.label.name → t = u) : sorted ts = sorted us := by
  suffices h : ∀ t, t ∈ ts ↔ t ∈ us from
    sorted_eq_of_perm ((List.perm_ext_iff_of_nodup (ht.of_map _) (hu.of_map _)).2 h) hname
  intro t
  constructor
  · intro h
    obtain ⟨u, hu, huname⟩ := htu t h
    rwa [hname t h u hu huname.symm]
  · intro h
    obtain ⟨s, hs, hsname⟩ := hut t h
    rwa [← hname s hs t h hsname]

/-! ## Folders -/

/-- The only child of the root, if it has the icon `folder`. -/
def onlyFolder? (folder : Text) (t : Tree) : Option Tree :=
  match t.children with
  | [u] => if u.label.icon = folder then some u else none
  | _ => none

theorem onlyFolder?_eq_some_iff :
    t.onlyFolder? folder = some u ↔ t.children = [u] ∧ u.label.icon = folder := by
  unfold onlyFolder?
  split
  · next v hv =>
    rw [hv, List.cons.injEq, Option.ite_none_right_eq_some, Option.some.injEq]
    constructor
    · rintro ⟨hicon, rfl⟩
      exact ⟨⟨rfl, rfl⟩, hicon⟩
    · rintro ⟨⟨rfl, -⟩, hicon⟩
      exact ⟨hicon, rfl⟩
  · next h =>
    constructor
    · intro h'
      cases h'
    · rintro ⟨hu, -⟩
      exact absurd hu (h u)

/-- The root with the name and the children of `u` taken over. -/
def absorbing (t u : Tree) : Tree :=
  .node { t.label with name := t.label.name ++ "/" ++ u.label.name } u.children

theorem length_preorder_lt_of_mem (h : u ∈ t.children) :
    u.preorder.length < t.preorder.length := by
  obtain ⟨x, ts⟩ := t
  rw [children] at h
  rw [preorder, List.length_cons, Nat.lt_succ_iff]
  induction ts with
  | nil => cases h
  | cons s ts ih =>
    rw [preorderAll, List.length_append]
    rcases List.mem_cons.1 h with rfl | h
    · exact Nat.le_add_right _ _
    · exact Nat.le_trans (ih h) (Nat.le_add_left _ _)

theorem length_preorder_absorbing_lt (h : t.children = [u]) :
    (t.absorbing u).preorder.length < t.preorder.length := by
  obtain ⟨x, ts⟩ := t
  obtain ⟨y, us⟩ := u
  rw [children] at h
  subst h
  simp only [absorbing, children, preorder, preorderAll, List.length_cons, List.length_append]
  omega

/-- The tree with its folders merged and sorted. What is no folder stays as it is, with everything
below it. -/
def folded (folder : Text) (t : Tree) : Tree :=
  if t.label.icon = folder then
    match _ : t.onlyFolder? folder with
    | some u => folded folder (t.absorbing u)
    | none => .node t.label ((sorted t.children).attach.map fun u => folded folder u.1)
  else t
termination_by t.preorder.length
decreasing_by
  · next h => exact length_preorder_absorbing_lt (onlyFolder?_eq_some_iff.1 h).1
  · exact length_preorder_lt_of_mem (mem_sorted.1 (Subtype.property _))

/-- The tree with the folders below its root merged and sorted. -/
def foldedBelow (folder : Text) (t : Tree) : Tree :=
  .node t.label ((sorted t.children).map (folded folder))

theorem folded_of_ne (hi : t.label.icon ≠ folder) : t.folded folder = t := by
  rw [folded, if_neg hi]

theorem folded_of_onlyFolder?_eq_some (hi : t.label.icon = folder)
    (hu : t.onlyFolder? folder = some u) : t.folded folder = (t.absorbing u).folded folder := by
  rw [folded, if_pos hi]
  split
  · next v hv =>
    rw [hv, Option.some.injEq] at hu
    rw [hu]
  · next hv =>
    rw [hv] at hu
    cases hu

theorem folded_of_onlyFolder?_eq_none (hi : t.label.icon = folder)
    (hnone : t.onlyFolder? folder = none) : t.folded folder = t.foldedBelow folder := by
  rw [folded, if_pos hi]
  split
  · next v hv =>
    rw [hv] at hnone
    cases hnone
  · rw [List.attach_map_val, foldedBelow]

/-! ## Arranging -/

/-- The tree with the children of its folders in the order of their names. What is no folder stays
as it is, with everything below it. -/
def arranged (folder : Text) (t : Tree) : Tree :=
  if t.label.icon = folder then
    .node t.label (sorted (t.children.attach.map fun u => arranged folder u.1))
  else t
termination_by t.preorder.length
decreasing_by exact length_preorder_lt_of_mem (Subtype.property _)

theorem arranged_of_ne (hi : t.label.icon ≠ folder) : t.arranged folder = t := by
  rw [arranged, if_neg hi]

theorem arranged_of_eq (hi : t.label.icon = folder) :
    t.arranged folder = .node t.label (sorted (t.children.map (arranged folder))) := by
  rw [arranged, if_pos hi, List.attach_map_val]

@[simp] theorem label_arranged (folder : Text) (t : Tree) :
    (t.arranged folder).label = t.label := by
  by_cases hi : t.label.icon = folder
  · rw [arranged_of_eq hi]
    rfl
  · rw [arranged_of_ne hi]

theorem children_arranged (hi : t.label.icon = folder) :
    (t.arranged folder).children = sorted (t.children.map (arranged folder)) := by
  rw [arranged_of_eq hi]
  rfl

/-- Sorting neither makes an only child nor takes one away. -/
theorem onlyFolder?_arranged (hi : t.label.icon = folder) :
    (t.arranged folder).onlyFolder? folder = (t.onlyFolder? folder).map (arranged folder) := by
  have hiff {v : Tree} : (t.arranged folder).children = [v] ↔
      ∃ u, t.children = [u] ∧ u.arranged folder = v := by
    rw [children_arranged hi, ← List.perm_singleton, (sorted_perm _).congr_left,
      List.perm_singleton, List.map_eq_singleton_iff]
  refine Option.ext fun v => ?_
  rw [onlyFolder?_eq_some_iff, hiff, Option.map_eq_some_iff]
  constructor
  · rintro ⟨⟨u, hu, rfl⟩, hicon⟩
    rw [label_arranged] at hicon
    exact ⟨u, onlyFolder?_eq_some_iff.2 ⟨hu, hicon⟩, rfl⟩
  · rintro ⟨u, hu, rfl⟩
    obtain ⟨hchildren, hicon⟩ := onlyFolder?_eq_some_iff.1 hu
    exact ⟨⟨u, hchildren, rfl⟩, by rwa [label_arranged]⟩

theorem absorbing_arranged (hi : t.label.icon = folder) (hu : u.label.icon = folder) :
    (t.arranged folder).absorbing (u.arranged folder) = (t.absorbing u).arranged folder := by
  have hicon : (t.absorbing u).label.icon = folder := hi
  rw [arranged_of_eq hicon, absorbing, label_arranged, label_arranged, children_arranged hu]
  rfl

/-- Below the root, merging sees the arranged trees in the same order. -/
theorem foldedBelow_arranged_of_forall (hi : t.label.icon = folder)
    (h : ∀ u ∈ t.children, (u.arranged folder).folded folder = u.folded folder) :
    (t.arranged folder).foldedBelow folder = t.foldedBelow folder := by
  rw [foldedBelow, foldedBelow, label_arranged, children_arranged hi, sorted_sorted,
    sorted_map fun u => by rw [label_arranged], List.map_map]
  congr 1
  exact List.map_congr_left fun u hu => h u (mem_sorted.1 hu)

/-- Where the children of folders are sorted first, merging ends with the same tree. -/
theorem folded_arranged (folder : Text) (t : Tree) :
    (t.arranged folder).folded folder = t.folded folder := by
  induction t using folded.induct folder with
  | case1 t hi u hu ih =>
    -- The root absorbs `u`, or `u` when that is arranged.
    have hicon : u.label.icon = folder := (onlyFolder?_eq_some_iff.1 hu).2
    have honly : (t.arranged folder).onlyFolder? folder = some (u.arranged folder) := by
      rw [onlyFolder?_arranged hi, hu, Option.map_some]
    rw [folded_of_onlyFolder?_eq_some (by rwa [label_arranged]) honly,
      folded_of_onlyFolder?_eq_some hi hu, absorbing_arranged hi hicon, ih]
  | case2 t hi hnone ih =>
    have honly : (t.arranged folder).onlyFolder? folder = none := by
      rw [onlyFolder?_arranged hi, hnone, Option.map_none]
    rw [folded_of_onlyFolder?_eq_none (by rwa [label_arranged]) honly,
      folded_of_onlyFolder?_eq_none hi hnone]
    exact foldedBelow_arranged_of_forall hi fun u hu => ih ⟨u, mem_sorted.2 hu⟩
  | case3 t hi => rw [arranged_of_ne hi]

theorem foldedBelow_arranged (hi : t.label.icon = folder) :
    (t.arranged folder).foldedBelow folder = t.foldedBelow folder :=
  foldedBelow_arranged_of_forall hi fun u _ => folded_arranged folder u

end ReportTree.Tree
