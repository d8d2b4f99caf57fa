import Mathlib.Data.List.Perm.Basic
import ReportTree.Proofs.Tree.Folded

/-!
# Paths in a tree with merged folders

Merging moves the slash between two folders from a path into a name. So no path from the root down
to a leaf changes, and where a folder is left with one child, that is no folder.

* `Tree.leafPaths`: the paths down to the leaves.
* `Tree.perm_leafPaths_folded`, `Tree.perm_leafPaths_foldedBelow`: merging keeps them.
* `Tree.merged_folded`: there is nothing left to merge.
-/

namespace ReportTree.Tree

mutual

/-- The paths from the root down to the leaves: the names on the way with a slash after each but the
last. -/
def leafPaths : Tree → List Text
  | node l ts => if ts.isEmpty then [l.name] else (leafPathsAll ts).map (l.name ++ "/" ++ ·)

/-- The paths of trees, one tree after the other. -/
def leafPathsAll : List Tree → List Text
  | [] => []
  | t :: ts => leafPaths t ++ leafPathsAll ts

end

/-- No folder that is reached through folders from the root, which is one of them, has an only child
that is a folder. -/
inductive Merged (folder : Text) : Tree → Prop
  | other {t : Tree} (hi : t.label.icon ≠ folder) : Merged folder t
  | folder {t : Tree} (honly : t.onlyFolder? folder = none)
      (hchildren : ∀ u ∈ t.children, Merged folder u) : Merged folder t

variable {folder : Text} {t u : Tree} {ts : List Tree}

/-! ## Paths -/

theorem leafPathsAll_eq (ts : List Tree) : leafPathsAll ts = ts.flatMap leafPaths := by
  induction ts with
  | nil => rfl
  | cons t ts ih => rw [leafPathsAll, ih, List.flatMap_cons]

theorem leafPaths_of_nil (h : t.children = []) : t.leafPaths = [t.label.name] := by
  obtain ⟨l, ts⟩ := t
  rw [children] at h
  subst h
  rfl

theorem leafPaths_of_ne_nil (h : t.children ≠ []) :
    t.leafPaths = (t.children.flatMap leafPaths).map (t.label.name ++ "/" ++ ·) := by
  obtain ⟨l, ts⟩ := t
  rw [children] at h ⊢
  rw [leafPaths, if_neg (by simpa using h), leafPathsAll_eq, label]

/-- The slash of the path is in the name then. -/
theorem leafPaths_absorbing (h : t.children = [u]) : (t.absorbing u).leafPaths = t.leafPaths := by
  have ht : t.leafPaths = u.leafPaths.map (t.label.name ++ "/" ++ ·) := by
    rw [leafPaths_of_ne_nil (by simp [h]), h, List.flatMap_singleton]
  by_cases hu : u.children = []
  · rw [ht, leafPaths_of_nil hu, leafPaths_of_nil (t := t.absorbing u) hu]
    rfl
  · rw [ht, leafPaths_of_ne_nil hu, leafPaths_of_ne_nil (t := t.absorbing u) hu, List.map_map]
    simp [absorbing, label, children, Function.comp_def]

/-- A change of the children that keeps their paths, and where they are, keeps those of the root. -/
theorem perm_leafPaths_node {us : List Tree} {g : Tree → Tree} (hperm : us.Perm t.children)
    (h : ∀ u ∈ us, (g u).leafPaths.Perm u.leafPaths) :
    (node t.label (us.map g)).leafPaths.Perm t.leafPaths := by
  by_cases hnil : t.children = []
  · rw [hnil, List.perm_nil] at hperm
    subst hperm
    rw [leafPaths_of_nil hnil]
    rfl
  · have hus : us.map g ≠ [] := by
      rintro hmap
      rw [List.map_eq_nil_iff] at hmap
      exact hnil (List.nil_perm.1 (hmap ▸ hperm))
    rw [leafPaths_of_ne_nil (t := node t.label (us.map g)) hus, leafPaths_of_ne_nil hnil]
    refine List.Perm.map _ ?_
    show ((us.map g).flatMap leafPaths).Perm _
    rw [List.flatMap_map]
    exact hperm.flatMap h

/-- Merging keeps the paths, whatever order it leaves them in. -/
theorem perm_leafPaths_folded (folder : Text) (t : Tree) :
    (t.folded folder).leafPaths.Perm t.leafPaths := by
  induction t using folded.induct folder with
  | case1 t hi u hu ih =>
    rw [folded_of_onlyFolder?_eq_some hi hu, ← leafPaths_absorbing (onlyFolder?_eq_some_iff.1 hu).1]
    exact ih
  | case2 t hi hnone ih =>
    rw [folded_of_onlyFolder?_eq_none hi hnone, foldedBelow]
    exact perm_leafPaths_node (sorted_perm _) fun u hu => ih ⟨u, hu⟩
  | case3 t hi => rw [folded_of_ne hi]

theorem perm_leafPaths_foldedBelow (folder : Text) (t : Tree) :
    (t.foldedBelow folder).leafPaths.Perm t.leafPaths :=
  perm_leafPaths_node (sorted_perm _) fun u _ => perm_leafPaths_folded folder u

/-! ## Nothing left to merge -/

/-- Merging changes no icon of a root. -/
theorem icon_folded (folder : Text) (t : Tree) : (t.folded folder).label.icon = t.label.icon := by
  induction t using folded.induct folder with
  | case1 t hi u hu ih =>
    rw [folded_of_onlyFolder?_eq_some hi hu, ih]
    rfl
  | case2 t hi hnone ih =>
    rw [folded_of_onlyFolder?_eq_none hi hnone]
    rfl
  | case3 t hi => rw [folded_of_ne hi]

/-- Merging what is below makes no only folder. -/
theorem onlyFolder?_foldedBelow (hnone : t.onlyFolder? folder = none) :
    (t.foldedBelow folder).onlyFolder? folder = none := by
  refine Option.eq_none_iff_forall_ne_some.2 fun v hv => ?_
  obtain ⟨hchildren, hicon⟩ := onlyFolder?_eq_some_iff.1 hv
  obtain ⟨u, hu, rfl⟩ := List.map_eq_singleton_iff.1 hchildren
  have hone : t.children = [u] := by
    rw [← List.perm_singleton, ← hu]
    exact (sorted_perm _).symm
  rw [icon_folded] at hicon
  rw [onlyFolder?_eq_some_iff.2 ⟨hone, hicon⟩] at hnone
  cases hnone

/-- After merging there is nothing left to merge. -/
theorem merged_folded (folder : Text) (t : Tree) : (t.folded folder).Merged folder := by
  induction t using folded.induct folder with
  | case1 t hi u hu ih => rwa [folded_of_onlyFolder?_eq_some hi hu]
  | case2 t hi hnone ih =>
    rw [folded_of_onlyFolder?_eq_none hi hnone]
    refine .folder (onlyFolder?_foldedBelow hnone) fun v hv => ?_
    obtain ⟨u, hu, rfl⟩ := List.mem_map.1 hv
    exact ih ⟨u, hu⟩
  | case3 t hi =>
    rw [folded_of_ne hi]
    exact .other hi

theorem merged_of_mem_foldedBelow (h : u ∈ (t.foldedBelow folder).children) :
    u.Merged folder := by
  obtain ⟨v, -, rfl⟩ := List.mem_map.1 h
  exact merged_folded folder v

end ReportTree.Tree
