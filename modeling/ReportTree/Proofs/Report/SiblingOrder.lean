import Mathlib.Data.List.Permutation
import ReportTree.Proofs.Report.PathOrder
import ReportTree.Proofs.Tree.Ordered

/-!
# The order of siblings

The children of a folder are sorted before those among them that hold nothing but a folder absorb
it. The report of file paths shows every folder in the order of the names that it shows, unless such
a child has a sibling whose name goes on after its own with a code point before the slash. Whether
there are such siblings can be read off the paths.

* `Forest.OnlyFolderAt`, `Forest.Undercut`: the paths that make such siblings.
* `Forest.Laid.named_tree`, `Forest.Laid.spoiled_iff`: the tree of paths before it is merged.
* `Forest.Laid.ordered_mergeFolders_iff`: and afterwards.
* `Report.ordered_ofPaths_iff`: when the folders of the report are in order.
-/

namespace ReportTree

namespace Forest

variable {f : Forest} {rank : NodeId → Nat} {i j c r : NodeId} {folder file tab s : Text}
  {names : List Text} {done : List (List Text)}

/-- A path goes on after `place` with the name `s`. -/
def GoesOn (paths : List (List Text)) (place : List Text) (s : Text) : Prop :=
  ∃ p ∈ paths, place ++ [s] <+: p

/-- The paths go on after `place` with the same name. None of them ends before or after it. -/
def OnlyFolderAt (paths : List (List Text)) (place : List Text) : Prop :=
  place ∉ paths ∧ ∃ s, place ++ [s] ∉ paths ∧ ∀ t, GoesOn paths place t ↔ t = s

/-- In one place there are a folder that holds nothing but a folder and something with a name that
undercuts its own. -/
def Undercut (paths : List (List Text)) : Prop :=
  ∃ place s t, OnlyFolderAt paths (place ++ [s]) ∧ GoesOn paths place t ∧ t.Undercuts s

/-! ## Subtrees -/

/-- The subtrees of the tree that is seen are those that are seen from the nodes there. -/
theorem Ranked.mem_subtrees_tree_iff (hr : f.Ranked rank) {u : Tree} :
    u ∈ (f.tree i).subtrees ↔ ∃ j, f.Within i j ∧ f.tree j = u := by
  constructor
  · induction hn : rank i using Nat.strongRecOn generalizing i with
    | _ n ih =>
      intro hu
      rw [Tree.mem_subtrees_iff, hr.children_tree] at hu
      obtain rfl | ⟨t, ht, hu⟩ := hu
      · exact ⟨i, .refl, rfl⟩
      · obtain ⟨c, hc, rfl⟩ := List.mem_map.1 ht
        obtain ⟨j, hj, hju⟩ := ih (rank c) (hn ▸ hr.lt i c hc) rfl hu
        exact ⟨j, .head hc hj, hju⟩
  · rintro ⟨j, hj, rfl⟩
    induction hj using Relation.ReflTransGen.head_induction_on with
    | refl => exact Tree.mem_subtrees_self _
    | head hc _ ih =>
      refine Tree.mem_subtrees_of_mem ?_ ih
      rw [hr.children_tree]
      exact List.mem_map_of_mem hc

/-! ## The tree of paths -/

section Laid

variable (h : Laid folder file tab r f done [])
include h

/-- The children of a node have the names with which paths go on. -/
theorem Laid.exists_child_iff (hc : f.Leads r names c) :
    (∃ d ∈ f.children c, (f.label d).name = s) ↔ GoesOn done names s := by
  have hleads : (∃ d ∈ f.children c, (f.label d).name = s) ↔ ∃ d, f.Leads r (names ++ [s]) d := by
    simp only [leads_concat_iff]
    constructor
    · rintro ⟨d, hd, hs⟩
      exact ⟨d, c, hc, hd, hs⟩
    · rintro ⟨d, k, hk, hd, hs⟩
      exact ⟨d, h.distinct.eq_of_leads hk hc ▸ hd, hs⟩
  rw [hleads, h.leads_iff]
  simp [GoesOn]

/-- A node that a path leads to is a folder if no path ends there. -/
theorem Laid.icon_eq_iff (hne : folder ≠ file) {p : List Text} (hp : p ∈ done)
    (hnames : names <+: p) (hc : f.Leads r names c) :
    (f.label c).icon = folder ↔ names ∉ done := by
  rw [h.label_eq names c hc, laidLabel]
  by_cases hdone : names ∈ done
  · simp [hdone, hne.symm]
  · have habove : Above ([] :: done) names :=
      ⟨p, List.mem_cons_of_mem [] hp, hnames, fun heq => hdone (heq ▸ hp)⟩
    simp [hdone, habove]

/-- A node absorbs its only child if paths go on through one folder. -/
theorem Laid.absorbs_iff (hne : folder ≠ file) (hc : f.Leads r names c) :
    (f.tree c).Absorbs folder ↔ OnlyFolderAt done names := by
  have hnext {d : NodeId} (hd : d ∈ f.children c) : f.Leads r (names ++ [(f.label d).name]) d :=
    leads_concat_iff.2 ⟨c, hc, hd, rfl⟩
  rw [Tree.Absorbs, label_tree, (h.rising.ranked h.coherent).onlyFolder?_tree, Option.isSome_map]
  constructor
  · rintro ⟨hicon, hsome⟩
    obtain ⟨e, he⟩ := Option.isSome_iff_exists.1 hsome
    obtain ⟨hchildren, hicone⟩ := spec_of_onlyFolder?_eq_some he
    have hmem : e ∈ f.children c := hchildren ▸ List.mem_singleton_self e
    obtain ⟨p, hp, hpe⟩ := (h.exists_child_iff hc).1 ⟨e, hmem, rfl⟩
    have hpc : names <+: p := (List.prefix_append _ _).trans hpe
    refine ⟨(h.icon_eq_iff hne hp hpc hc).1 hicon, (f.label e).name,
      (h.icon_eq_iff hne hp hpe (hnext hmem)).1 hicone, fun t => ?_⟩
    rw [← h.exists_child_iff hc, hchildren]
    simp [eq_comm]
  · rintro ⟨hcdone, s, hsdone, hs⟩
    obtain ⟨p, hp, hps⟩ := (hs s).2 rfl
    obtain ⟨e, he, rfl⟩ := (h.exists_child_iff hc).2 ⟨p, hp, hps⟩
    have hmem (d : NodeId) : d ∈ f.children c ↔ d ∈ [e] := by
      rw [List.mem_singleton]
      refine ⟨fun hd => ?_, fun hd => hd ▸ he⟩
      exact h.distinct c d hd e he ((hs _).1 ((h.exists_child_iff hc).1 ⟨d, hd, rfl⟩))
    have hsingle : f.children c = [e] := List.perm_singleton.1
      ((List.perm_ext_iff_of_nodup (h.coherent.nodup c) (List.nodup_singleton e)).2 hmem)
    have hpc : names <+: p := (List.prefix_append _ _).trans hps
    refine ⟨(h.icon_eq_iff hne hp hpc hc).2 hcdone, ?_⟩
    simp [onlyFolder?, hsingle, (h.icon_eq_iff hne hp hps (hnext he)).2 hsdone]

/-- Merging may spoil the order of a folder only where paths undercut each other. -/
theorem Laid.spoiled_iff (hne : folder ≠ file) : (f.tree r).Spoiled folder ↔ Undercut done := by
  have hr := h.rising.ranked h.coherent
  constructor
  · rintro ⟨u, hu, t, ht, habsorbs, v, hv, hundercuts⟩
    obtain ⟨j, hj, rfl⟩ := hr.mem_subtrees_tree_iff.1 hu
    rw [hr.children_tree] at ht hv
    obtain ⟨c, hc, rfl⟩ := List.mem_map.1 ht
    obtain ⟨d, hd, rfl⟩ := List.mem_map.1 hv
    rw [label_tree, label_tree] at hundercuts
    obtain ⟨place, hplace⟩ := hj.exists_leads
    have hleads : f.Leads r (place ++ [(f.label c).name]) c :=
      leads_concat_iff.2 ⟨j, hplace, hc, rfl⟩
    exact ⟨place, _, _, (h.absorbs_iff hne hleads).1 habsorbs,
      (h.exists_child_iff hplace).1 ⟨d, hd, rfl⟩, hundercuts⟩
  · rintro ⟨place, s, t, honly, ht, hundercuts⟩
    obtain ⟨x, -, hx⟩ := honly.2
    obtain ⟨p, hp, hbegins⟩ := (hx x).2 rfl
    obtain ⟨c, hleads⟩ := (h.leads_iff (place ++ [s])).2
      ⟨p, List.mem_cons_of_mem [] hp, (List.prefix_append _ _).trans hbegins⟩
    obtain ⟨j, hplace, hc, rfl⟩ := leads_concat_iff.1 hleads
    obtain ⟨d, hd, rfl⟩ := (h.exists_child_iff hplace).2 ht
    refine ⟨f.tree j, hr.mem_subtrees_tree_iff.2 ⟨j, hplace.within, rfl⟩, f.tree c, ?_,
      (h.absorbs_iff hne hleads).2 honly, f.tree d, ?_, ?_⟩
    · rw [hr.children_tree]
      exact List.mem_map_of_mem hc
    · rw [hr.children_tree]
      exact List.mem_map_of_mem hd
    · rwa [label_tree, label_tree]

/-- The tree of paths, before it is merged. -/
theorem Laid.named_tree (hfree : ∀ p ∈ done, ∀ q ∈ done, p <+: q → p = q)
    (hslash : ∀ p ∈ done, ∀ s ∈ p, CodePoint.scalar '/' ∉ s) :
    ∀ u ∈ (f.tree r).subtrees, u.Named folder := by
  have hr := h.rising.ranked h.coherent
  intro u hu
  obtain ⟨j, hj, rfl⟩ := hr.mem_subtrees_tree_iff.1 hu
  constructor
  · intro hchildren
    rw [hr.children_tree] at hchildren
    rw [label_tree]
    exact h.icon_eq hfree hj fun hnil => hchildren (by rw [hnil, List.map_nil])
  · rw [hr.children_tree, List.map_map]
    simpa [Function.comp_def] using h.distinct.nodup_names h.coherent j
  · rw [hr.children_tree, List.forall_mem_map]
    intro c hc
    obtain ⟨place, hplace⟩ := hj.exists_leads
    obtain ⟨p, hp, hbegins⟩ := (h.exists_child_iff hplace).1 ⟨c, hc, rfl⟩
    rw [label_tree]
    exact hslash p hp _ (hbegins.subset (List.mem_append_right _ (List.mem_singleton_self _)))

/-- Merging leaves all folders in order if and only if no paths undercut each other. -/
theorem Laid.ordered_mergeFolders_iff (hne : folder ≠ file)
    (hfree : ∀ p ∈ done, ∀ q ∈ done, p <+: q → p = q)
    (hslash : ∀ p ∈ done, ∀ s ∈ p, CodePoint.scalar '/' ∉ s) :
    ((f.mergeFolders r folder).tree r).Ordered folder ↔ ¬Undercut done := by
  have hr := h.rising.ranked h.coherent
  rw [← h.spoiled_iff hne, hr.tree_mergeFolders_root h.coherent h.parent_root h.root_lt]
  have hnamed := h.named_tree hfree hslash
  split
  · next hi => exact Tree.ordered_foldedBelow_iff hnamed (by rwa [label_tree])
  · next hi =>
    -- Merging leaves a root alone that is no folder, whether it absorbs children or not.
    have hfolded := Tree.ordered_folded_iff hnamed
    rwa [Tree.folded_of_ne (by rwa [label_tree])] at hfolded

end Laid

/-- Without superfluous slashes, the paths of a text have the segments that are written. -/
theorem map_segments_normalPaths (paths : Text) :
    paths.normalPaths.map segments = (writtenPaths paths).map segments := by
  rw [Text.normalPaths, List.map_map]
  exact List.map_congr_left fun path _ => segments_join_segments path

end Forest

/-! ## The report -/

namespace Report

/-- The folders of a report of file paths are in the order of the names that are shown if and only
if no paths undercut each other. The segments of the paths are plain, no path goes on below the end
of another one, and folders and files have different icons. -/
theorem ordered_ofPaths_iff (paths title tab folder file mainText : Text) (hne : folder ≠ file)
    (hplain : ∀ line ∈ paths.lines, ∀ s ∈ Forest.segments line.trim, Markup.Plain s)
    (hfree : ∀ p ∈ paths.normalPaths, ∀ q ∈ paths.normalPaths,
      Forest.segments p <+: Forest.segments q → p = q) :
    (∀ t ∈ (ofPaths paths title tab folder file mainText).document.tabs, t.tree.Ordered folder) ↔
      ¬Forest.Undercut (paths.normalPaths.map Forest.segments) := by
  have hfree' : ∀ p ∈ paths.normalPaths.map Forest.segments,
      ∀ q ∈ paths.normalPaths.map Forest.segments, p <+: q → p = q := by
    simp only [List.forall_mem_map]
    exact fun p hp q hq h => congrArg Forest.segments (hfree p hp q hq h)
  have hslash : ∀ p ∈ paths.normalPaths.map Forest.segments, ∀ s ∈ p,
      CodePoint.scalar '/' ∉ s := by
    simp only [List.forall_mem_map]
    exact fun p _ s hs => Text.not_mem_of_mem_splitOn (List.mem_filter.1 hs).1
  have hlaid : Forest.Laid folder file tab 0
      ((Forest.empty.addRoot tab).2.addPaths 0 paths folder file)
      (paths.normalPaths.map Forest.segments) [] := by
    rw [Forest.map_segments_normalPaths] at hfree' ⊢
    refine Forest.laid_addPaths folder file tab (List.forall_mem_map.2 fun path hpath => ?_) hfree'
    obtain ⟨line, hline, rfl⟩ := List.mem_map.1 (List.mem_filter.1 hpath).1
    exact hplain line hline
  exact List.forall_mem_singleton.trans (hlaid.ordered_mergeFolders_iff hne hfree' hslash)

/-- A folder absorbs another one, next to a file with a name that starts with its own. -/
theorem ordered_ofPaths_iff_absorbed :
    ¬Forest.Undercut ((Text.normalPaths "src/lib/a.c\nsrc0").map Forest.segments) := by
  have hiff := ordered_ofPaths_iff "src/lib/a.c\nsrc0" "" "" "dir" "file" "" (by decide)
    (by decide +kernel) (by decide +kernel)
  have hordered : ((ofPaths "src/lib/a.c\nsrc0" "" "" "dir" "file" "").document.tabs.all
      fun t => decide (t.tree.Ordered "dir")) = true := by cbv
  rw [List.all_eq_true] at hordered
  exact hiff.1 fun t ht => of_decide_eq_true (hordered t ht)

/-- The folder `src/lib` comes before `src-old`, as `src` does. -/
theorem not_ordered_ofPaths :
    ¬∀ paths title tab folder file mainText : Text,
      (∀ line ∈ paths.lines, ∀ s ∈ Forest.segments line.trim, Markup.Plain s) →
      (∀ line ∈ paths.lines, line.trim ≠ [] → Forest.segments line.trim ≠ []) →
      (∀ p ∈ paths.normalPaths, ∀ q ∈ paths.normalPaths,
        Forest.segments p <+: Forest.segments q → p = q) →
      folder ≠ [] → file ≠ [] → folder ≠ file →
      ∀ t ∈ (ofPaths paths title tab folder file mainText).document.tabs,
        t.tree.Ordered folder := by
  intro h
  have hordered := h "src/lib/a.c\nsrc-old/b.c" "" "" "dir" "file" "" (by decide +kernel)
    (by decide +kernel) (by decide +kernel) (by decide) (by decide) (by decide)
  have hall : ((ofPaths "src/lib/a.c\nsrc-old/b.c" "" "" "dir" "file" "").document.tabs.all
      fun t => decide (t.tree.Ordered "dir")) = false := by cbv
  rw [List.all_eq_false] at hall
  obtain ⟨t, ht, hnot⟩ := hall
  exact hnot (decide_eq_true (hordered t ht))

end Report

end ReportTree
