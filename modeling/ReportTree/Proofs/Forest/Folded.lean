import ReportTree.Proofs.Forest.Edit
import ReportTree.Proofs.Forest.Merging
import ReportTree.Proofs.Report.Severity
import ReportTree.Proofs.Tree.Folded

/-!
# The tree that merging leaves

Merging changes the nodes of a forest one after the other, at and below the node where it starts.
What is seen there afterwards is a function of the tree that was seen before.

* `tree_congr`: the tree below a node depends on nothing but the nodes there.
* `same_mergeFoldersTo`: merging changes nothing but what is reached through folders.
* `Ranked.tree_mergeFolders`, `Ranked.tree_mergeFolders_root`: the tree below a node whose folders
  were merged.
-/

namespace ReportTree.Forest

variable {f g : Forest} {rank : NodeId → Nat} {i j c : NodeId} {cs : List NodeId} {folder : Text}

/-! ## What is seen -/

/-- A node shows and lists the same in two forests. -/
def Same (f g : Forest) (j : NodeId) : Prop :=
  g.label j = f.label j ∧ g.children j = f.children j

/-- `i`, the node and all nodes on the way down between them have the icon `folder`. -/
inductive ThroughFolders (f : Forest) (folder : Text) (i : NodeId) : NodeId → Prop
  | self (hi : (f.label i).icon = folder) : ThroughFolders f folder i i
  | child {j c : NodeId} (hj : ThroughFolders f folder i j) (hc : c ∈ f.children j)
      (hicon : (f.label c).icon = folder) : ThroughFolders f folder i c

theorem Same.trans {k : Forest} (h : Same f g j) (h' : Same g k j) : Same f k j :=
  ⟨h'.1.trans h.1, h'.2.trans h.2⟩

/-- The tree below a node depends on nothing but the nodes there. -/
theorem tree_congr (hsize : g.size = f.size) (h : ∀ j, f.Within i j → Same f g j) :
    g.tree i = f.tree i := by
  have hto (depth : Nat) : treeTo depth g i = treeTo depth f i := by
    induction depth generalizing i with
    | zero => rw [treeTo, treeTo, (h i .refl).1]
    | succ depth ih =>
      rw [treeTo, treeTo, (h i .refl).1, (h i .refl).2]
      congr 1
      exact List.map_congr_left fun c hc => ih fun j hj => h j (.head hc hj)
  rw [tree, tree, hsize, hto]

/-! ## Ways through folders -/

theorem ThroughFolders.icon_start (h : f.ThroughFolders folder i j) :
    (f.label i).icon = folder := by
  induction h with
  | self hi => exact hi
  | child _ _ _ ih => exact ih

theorem ThroughFolders.icon_eq (h : f.ThroughFolders folder i j) : (f.label j).icon = folder := by
  cases h with
  | self hi => exact hi
  | child _ _ hicon => exact hicon

theorem ThroughFolders.within (h : f.ThroughFolders folder i j) : f.Within i j := by
  induction h with
  | self => exact .refl
  | child _ hc _ ih => exact ih.tail hc

/-- A way from a child is one from the node above, if that is a folder as well. -/
theorem ThroughFolders.head (hi : (f.label i).icon = folder) (hc : c ∈ f.children i)
    (h : f.ThroughFolders folder c j) : f.ThroughFolders folder i j := by
  induction h with
  | self hicon => exact .child (.self hi) hc hicon
  | child _ hd hicon ih => exact .child ih hd hicon

/-- A way on which the only child is missing led over that child. -/
theorem throughFolders_of_absorbOnlyChild (hc : f.children i = [c])
    (hicon : (f.label c).icon = folder) {a b : NodeId}
    (h : (f.absorbOnlyChild i "/").ThroughFolders folder a b) : f.ThroughFolders folder a b := by
  have hsame (j : NodeId) : ((f.absorbOnlyChild i "/").label j).icon = (f.label j).icon := by
    rw [label_absorbOnlyChild "/" hc]
    split <;> rfl
  induction h with
  | self ha =>
    rw [hsame] at ha
    exact .self ha
  | @child j d _ hd hdicon ih =>
    rw [hsame] at hdicon
    rw [(absorbOnlyChild_spec "/" hc rfl).2.2.1] at hd
    split at hd
    · next hij =>
      subst hij
      exact (ih.child (hc ▸ List.mem_singleton_self c) hicon).child hd hdicon
    · split at hd
      · cases hd
      · exact ih.child hd hdicon

/-! ## Merging in steps -/

theorem Ranked.absorbOnlyChild (hr : f.Ranked rank) (hc : f.children i = [c]) :
    (f.absorbOnlyChild i "/").Ranked rank := by
  obtain ⟨hsize, -, hchildren, -⟩ := absorbOnlyChild_spec "/" hc rfl
  constructor
  · intro j d hd
    rw [hchildren] at hd
    split at hd
    · next hij =>
      have hlt := hr.lt i c (hc ▸ List.mem_singleton_self c)
      exact hij ▸ Nat.lt_trans (hr.lt c d hd) hlt
    · split at hd
      · cases hd
      · exact hr.lt j d hd
  · intro j
    rw [hsize]
    exact hr.le j

theorem Ranked.sortChildren (hr : f.Ranked rank) : (f.sortChildren i).Ranked rank where
  lt j d hd := hr.lt j d (mem_children_sortChildren_iff.1 hd)
  le j := by
    rw [Forest.sortChildren, size_modifyChildren]
    exact hr.le j

section Folding

variable (h : Folding folder f cs g)
include h

theorem Folding.size_eq : g.size = f.size := by
  induction h with
  | refl => rfl
  | absorb _ _ _ hchildren _ ih => rw [(absorbOnlyChild_spec "/" hchildren rfl).1, ih]
  | sort _ i ih => rw [sortChildren, size_modifyChildren, ih]

theorem Folding.ranked (hr : f.Ranked rank) : g.Ranked rank := by
  induction h with
  | refl => exact hr
  | absorb _ _ _ hchildren _ ih => exact ih.absorbOnlyChild hchildren
  | sort _ i ih => exact ih.sortChildren

/-- Merging changes nothing but names. -/
theorem Folding.label_eq (j : NodeId) :
    g.label j = { f.label j with name := (g.label j).name } := by
  induction h with
  | refl => rfl
  | absorb _ _ _ hchildren _ ih =>
    rw [label_absorbOnlyChild "/" hchildren]
    split
    · rw [ih]
    · exact ih
  | sort _ i ih =>
    rw [sortChildren, label_modifyChildren]
    exact ih

/-- What is below a node was there before. -/
theorem Folding.within (hij : g.Within i j) : f.Within i j := by
  induction h with
  | refl => exact hij
  | absorb _ _ _ hchildren _ ih => exact ih (within_of_absorbOnlyChild hchildren hij)
  | sort _ k ih => exact ih (hij.mono fun _ _ => mem_children_sortChildren_iff.1)

/-- A way through folders was one before. -/
theorem Folding.throughFolders (hij : g.ThroughFolders folder i j) :
    f.ThroughFolders folder i j := by
  induction h with
  | refl => exact hij
  | absorb _ _ _ hchildren hc ih => exact ih (throughFolders_of_absorbOnlyChild hchildren hc hij)
  | sort _ k ih =>
    refine ih ?_
    clear ih
    induction hij with
    | self hi =>
      rw [sortChildren, label_modifyChildren] at hi
      exact .self hi
    | child _ hc hicon ih =>
      rw [sortChildren, label_modifyChildren] at hicon
      exact ih.child (mem_children_sortChildren_iff.1 hc) hicon

/-- A node that has a parent is not left without one. -/
theorem Folding.parent_ne_none (hj : f.parent j ≠ none) : g.parent j ≠ none := by
  induction h with
  | refl => exact hj
  | absorb _ _ _ hchildren _ ih =>
    rw [(absorbOnlyChild_spec "/" hchildren rfl).2.2.2]
    split
    · exact Option.some_ne_none _
    · exact ih
  | sort _ i ih =>
    rw [sortChildren, parent_modifyChildren]
    exact ih

end Folding

/-! ## Elsewhere -/

theorem same_absorbFolders (steps : Nat) (hi : (f.label i).icon = folder)
    (h : ¬f.ThroughFolders folder i j) : Same f (absorbFolders folder i steps f) j := by
  induction steps generalizing f with
  | zero => exact ⟨rfl, rfl⟩
  | succ steps ih =>
    rw [absorbFolders]
    cases honly : f.onlyFolder? i folder with
    | none => exact ⟨rfl, rfl⟩
    | some c =>
      obtain ⟨hchildren, hicon⟩ := spec_of_onlyFolder?_eq_some honly
      have hij : i ≠ j := fun hij => h (hij ▸ .self hi)
      have hcj : c ≠ j := fun hcj =>
        h (hcj ▸ .child (.self hi) (hchildren ▸ List.mem_singleton_self c) hicon)
      have hfirst : Same f (f.absorbOnlyChild i "/") j := by
        rw [Same, label_absorbOnlyChild "/" hchildren,
          (absorbOnlyChild_spec "/" hchildren rfl).2.2.1, if_neg hij, if_neg hij, if_neg hcj]
        exact ⟨rfl, rfl⟩
      refine hfirst.trans (ih ?_ fun hway =>
        h (throughFolders_of_absorbOnlyChild hchildren hicon hway))
      rw [label_absorbOnlyChild "/" hchildren, if_pos rfl]
      exact hi

theorem same_sortChildren (hij : i ≠ j) : Same f (f.sortChildren i) j := by
  rw [Same, children_sortChildren, if_neg hij, sortChildren, label_modifyChildren]
  exact ⟨rfl, rfl⟩

/-- Merging along nodes changes nothing but what is reached from them through folders. -/
theorem same_foldl_mergeFoldersTo {depth : Nat}
    (hstep : ∀ f i, ¬f.ThroughFolders folder i j → Same f (mergeFoldersTo folder depth f i) j)
    (h : ∀ c ∈ cs, ¬f.ThroughFolders folder c j) :
    Same f (cs.foldl (mergeFoldersTo folder depth) f) j := by
  induction cs generalizing f with
  | nil => exact ⟨rfl, rfl⟩
  | cons c cs ih =>
    have hfirst := hstep f c (h c List.mem_cons_self)
    refine hfirst.trans (ih fun d hd hway => ?_)
    exact h d (List.mem_cons_of_mem c hd)
      ((folding_mergeFoldersTo folder depth f c).throughFolders hway)

/-- Merging changes nothing but what is reached from the node through folders. -/
theorem same_mergeFoldersTo (depth : Nat) (f : Forest) (i : NodeId)
    (h : ¬f.ThroughFolders folder i j) : Same f (mergeFoldersTo folder depth f i) j := by
  induction depth generalizing f i with
  | zero => exact ⟨rfl, rfl⟩
  | succ depth ih =>
    rw [mergeFoldersTo]
    split
    · next hi =>
      obtain ⟨ds, k, hk⟩ : ∃ ds k,
          (if (f.parent i).isSome then absorbFolders folder i f.size f else f) = k ∧
            Folding folder f ds k ∧ Same f k j := by
        split
        · next hp =>
          exact ⟨_, _, rfl, folding_absorbFolders (Option.isSome_iff_ne_none.1 hp) hi _,
            same_absorbFolders _ hi h⟩
        · exact ⟨_, _, rfl, .refl, rfl, rfl⟩
      obtain ⟨rfl, hfold, hsame⟩ := hk
      dsimp only
      have hij : i ≠ j := fun hij => h (hij ▸ .self hi)
      have hsorted := hfold.sort i
      refine (hsame.trans (same_sortChildren hij)).trans
        (same_foldl_mergeFoldersTo ih fun c hc hway => h ?_)
      refine hsorted.throughFolders (.head ?_ hc hway)
      rw [hsorted.label_eq]
      exact hi
    · exact ⟨rfl, rfl⟩

/-! ## Absorbing -/

section Absorb

variable (hr : f.Ranked rank)
include hr

/-- What is seen at a node that has absorbed its only child. -/
theorem Ranked.tree_absorbOnlyChild (hc : f.children i = [c]) :
    (f.absorbOnlyChild i "/").tree i = (f.tree i).absorbing (f.tree c) := by
  obtain ⟨hsize, -, hchildren, -⟩ := absorbOnlyChild_spec "/" hc rfl
  have hci : c ∈ f.children i := hc ▸ List.mem_singleton_self c
  have hbelow : (f.children c).map (f.absorbOnlyChild i "/").tree = (f.children c).map f.tree := by
    refine List.map_congr_left fun d hd => tree_congr hsize fun j hj => ?_
    have hcj : c ≠ j := hr.ne_of_within hd hj
    have hij : i ≠ j := hr.ne_of_within hci (.head hd hj)
    rw [Same, label_absorbOnlyChild "/" hc, hchildren, if_neg hij, if_neg hij, if_neg hcj]
    exact ⟨rfl, rfl⟩
  rw [(hr.absorbOnlyChild hc).tree_eq, label_absorbOnlyChild "/" hc, hchildren, if_pos rfl,
    if_pos rfl, hbelow, Tree.absorbing, label_tree, label_tree, hr.children_tree]

/-- An only folder is seen as such. -/
theorem Ranked.onlyFolder?_tree (i : NodeId) (folder : Text) :
    (f.tree i).onlyFolder? folder = (f.onlyFolder? i folder).map f.tree := by
  rw [Tree.onlyFolder?, onlyFolder?, hr.children_tree]
  match f.children i with
  | [] => rfl
  | [c] =>
    simp only [List.map_cons, List.map_nil, label_tree]
    split <;> rfl
  | _ :: _ :: _ => rfl

/-- Absorbing takes nothing from what merging will leave. -/
theorem Ranked.folded_tree_absorbFolders (hi : (f.label i).icon = folder) (steps : Nat) :
    ((absorbFolders folder i steps f).tree i).folded folder = (f.tree i).folded folder := by
  induction steps generalizing f with
  | zero => rfl
  | succ steps ih =>
    rw [absorbFolders]
    cases honly : f.onlyFolder? i folder with
    | none => rfl
    | some c =>
      have hchildren := (spec_of_onlyFolder?_eq_some honly).1
      have hicon : ((f.absorbOnlyChild i "/").label i).icon = folder := by
        rw [label_absorbOnlyChild "/" hchildren, if_pos rfl]
        exact hi
      have hseen : (f.tree i).onlyFolder? folder = some (f.tree c) := by
        rw [hr.onlyFolder?_tree, honly, Option.map_some]
      dsimp only
      rw [ih (hr.absorbOnlyChild hchildren) hicon, hr.tree_absorbOnlyChild hchildren,
        Tree.folded_of_onlyFolder?_eq_some (by rwa [label_tree]) hseen]

/-- With as many steps as ranks below the node, no only folder is left. -/
theorem Ranked.onlyFolder?_absorbFolders {steps : Nat}
    (hsteps : ∀ c ∈ f.children i, rank c < steps) :
    (absorbFolders folder i steps f).onlyFolder? i folder = none := by
  induction steps generalizing f with
  | zero =>
    have hnil : f.children i = [] :=
      List.eq_nil_iff_forall_not_mem.2 fun c hc => Nat.not_lt_zero _ (hsteps c hc)
    rw [absorbFolders, onlyFolder?, hnil]
  | succ steps ih =>
    rw [absorbFolders]
    cases honly : f.onlyFolder? i folder with
    | none => exact honly
    | some c =>
      have hchildren := (spec_of_onlyFolder?_eq_some honly).1
      refine ih (hr.absorbOnlyChild hchildren) fun d hd => ?_
      rw [(absorbOnlyChild_spec "/" hchildren rfl).2.2.1, if_pos rfl] at hd
      have hlt := hr.lt c d hd
      have hlt' := hsteps c (hchildren ▸ List.mem_singleton_self c)
      omega

end Absorb

/-! ## Merging -/

/-- What merging along nodes leaves of each of them, where nothing is below two of them. -/
theorem tree_foldl_mergeFoldersTo {depth : Nat}
    (hstep : ∀ f i, f.Coherent → f.Ranked rank → f.parent i ≠ none → rank i < depth →
      (mergeFoldersTo folder depth f i).tree i = (f.tree i).folded folder)
    (hf : f.Coherent) (hr : f.Ranked rank) (hparent : ∀ c ∈ cs, f.parent c ≠ none)
    (hdepth : ∀ c ∈ cs, rank c < depth)
    (hapart : cs.Pairwise fun a b => ∀ j, f.Within a j → ¬f.Within b j) (hc : c ∈ cs) :
    (cs.foldl (mergeFoldersTo folder depth) f).tree c = (f.tree c).folded folder := by
  induction cs generalizing f with
  | nil => cases hc
  | cons a cs ih =>
    obtain ⟨ha, hrest⟩ := List.pairwise_cons.1 hapart
    have hfold := folding_mergeFoldersTo folder depth f a
    rw [List.foldl_cons]
    rcases List.mem_cons.1 hc with rfl | hc
    · -- The nodes that follow leave the tree of the first one alone.
      have hfirst := hstep f c hf hr (hparent c hc) (hdepth c hc)
      rw [← hfirst]
      refine tree_congr ?_ fun j hj => ?_
      · exact (folding_along (folding_mergeFoldersTo folder depth) cs).size_eq
      · refine same_foldl_mergeFoldersTo (same_mergeFoldersTo depth) fun d hd hway => ?_
        exact ha d hd j (hfold.within hj) (hfold.within hway.within)
    · have hsame : (mergeFoldersTo folder depth f a).tree c = f.tree c :=
        tree_congr hfold.size_eq fun j hj =>
          same_mergeFoldersTo depth f a fun hway => ha c hc j hway.within hj
      rw [← hsame]
      refine ih (hfold.edits.coherent hf) (hfold.ranked hr) (fun d hd => ?_) (fun d hd => ?_) ?_ hc
      · exact hfold.parent_ne_none (hparent d (List.mem_cons_of_mem a hd))
      · exact hdepth d (List.mem_cons_of_mem a hd)
      · exact hrest.imp fun h j haj hbj => h j (hfold.within haj) (hfold.within hbj)

/-- What sorting a node and merging its children leaves. -/
theorem tree_foldl_sortChildren {depth : Nat}
    (hstep : ∀ f i, f.Coherent → f.Ranked rank → f.parent i ≠ none → rank i < depth →
      (mergeFoldersTo folder depth f i).tree i = (f.tree i).folded folder)
    (hf : f.Coherent) (hr : f.Ranked rank) (hdepth : ∀ c ∈ f.children i, rank c < depth) :
    (((f.sortChildren i).children i).foldl (mergeFoldersTo folder depth) (f.sortChildren i)).tree i =
      (f.tree i).foldedBelow folder := by
  obtain ⟨g, hg⟩ : ∃ g, f.sortChildren i = g := ⟨_, rfl⟩
  have hsize : g.size = f.size := by rw [← hg, sortChildren, size_modifyChildren]
  have hlabel (j : NodeId) : g.label j = f.label j := by
    rw [← hg, sortChildren, label_modifyChildren]
  have hchildren : g.children i =
      (f.children i).mergeSort fun a b => (f.label a).name.le (f.label b).name := by
    rw [← hg, children_sortChildren, if_pos rfl]
  have hmem {c : NodeId} : c ∈ g.children i ↔ c ∈ f.children i := by
    rw [hchildren, List.mem_mergeSort]
  have hgf : g.Coherent := hg ▸ hf.sortChildren
  have hgr : g.Ranked rank := hg ▸ hr.sortChildren
  have hsame {c : NodeId} (hc : c ∈ f.children i) : g.tree c = f.tree c :=
    tree_congr hsize fun j hj => hg ▸ same_sortChildren (hr.ne_of_within hc hj)
  have hsorted : Tree.sorted ((f.children i).map f.tree) = (g.children i).map f.tree := by
    rw [hchildren, Tree.sorted, List.map_mergeSort]
    intro a _ b _
    rw [label_tree, label_tree]
  rw [hg]
  -- The children are merged without a change of the node itself.
  have hnode : Same g ((g.children i).foldl (mergeFoldersTo folder depth) g) i :=
    same_foldl_mergeFoldersTo (same_mergeFoldersTo depth) fun c hc hway =>
      hgr.ne_of_within hc hway.within rfl
  have hmerged := (folding_along (folding_mergeFoldersTo folder depth) (g.children i)).ranked hgr
  rw [hmerged.tree_eq, hnode.1, hnode.2, hlabel, Tree.foldedBelow, label_tree, hr.children_tree,
    hsorted, List.map_map]
  congr 1
  refine List.map_congr_left fun c hc => ?_
  rw [Function.comp_apply, ← hsame (hmem.1 hc)]
  refine tree_foldl_mergeFoldersTo hstep hgf hgr (fun d hd => ?_) (fun d hd => ?_)
    (hgr.apart_children hgf i) hc
  · rw [hgf.parent_eq hd]
    exact Option.some_ne_none i
  · exact hdepth d (hmem.1 hd)

/-- Merging leaves the folded tree. -/
theorem tree_mergeFoldersTo (depth : Nat) (f : Forest) (i : NodeId) (hf : f.Coherent)
    (hr : f.Ranked rank) (hparent : f.parent i ≠ none) (hdepth : rank i < depth) :
    (mergeFoldersTo folder depth f i).tree i = (f.tree i).folded folder := by
  induction depth generalizing f i with
  | zero => exact absurd hdepth (Nat.not_lt_zero _)
  | succ depth ih =>
    by_cases hi : (f.label i).icon = folder
    · rw [mergeFoldersTo, if_pos hi, if_pos (Option.isSome_iff_ne_none.2 hparent)]
      have hfold := folding_absorbFolders hparent hi f.size
      have hicon : ((absorbFolders folder i f.size f).label i).icon = folder := by
        rw [hfold.label_eq]
        exact hi
      have honly : (absorbFolders folder i f.size f).onlyFolder? i folder = none := by
        refine hr.onlyFolder?_absorbFolders fun c hc => ?_
        have hlt := hr.lt i c hc
        have hle := hr.le i
        omega
      have hdepth' : ∀ c ∈ (absorbFolders folder i f.size f).children i, rank c < depth := by
        intro c hc
        have hlt := (hfold.ranked hr).lt i c hc
        omega
      dsimp only
      rw [tree_foldl_sortChildren ih (hfold.edits.coherent hf) (hfold.ranked hr) hdepth',
        ← hr.folded_tree_absorbFolders hi f.size, Tree.folded_of_onlyFolder?_eq_none]
      · rwa [label_tree]
      · rw [(hfold.ranked hr).onlyFolder?_tree, honly, Option.map_none]
    · rw [mergeFoldersTo, if_neg hi, Tree.folded_of_ne]
      rwa [label_tree]

/-- What merging leaves below a node that has a parent. -/
theorem Ranked.tree_mergeFolders (hr : f.Ranked rank) (hf : f.Coherent)
    (hparent : f.parent i ≠ none) :
    (f.mergeFolders i folder).tree i = (f.tree i).folded folder := by
  obtain ⟨p, hp⟩ := Option.ne_none_iff_exists'.1 hparent
  exact tree_mergeFoldersTo f.size f i hf hr hparent (hr.lt_size (lt_size_of_parent_eq hp))

/-- What merging leaves below a root, which absorbs nothing. -/
theorem Ranked.tree_mergeFolders_root (hr : f.Ranked rank) (hf : f.Coherent)
    (hparent : f.parent i = none) (hi : i < f.size) :
    (f.mergeFolders i folder).tree i =
      if (f.label i).icon = folder then (f.tree i).foldedBelow folder else f.tree i := by
  obtain ⟨depth, hsize⟩ := Nat.exists_eq_succ_of_ne_zero (Nat.ne_zero_of_lt hi)
  rw [mergeFolders, hsize, mergeFoldersTo, hparent]
  split
  · refine tree_foldl_sortChildren (tree_mergeFoldersTo depth) hf hr fun c hc => ?_
    have hlt := hr.lt i c hc
    have hle := hr.le i
    omega
  · rfl

end ReportTree.Forest
