import Mathlib.Data.List.Permutation
import ReportTree.Proofs.Forest.Folded
import ReportTree.Proofs.Forest.Grounded
import ReportTree.Proofs.Tree.LeafPaths

/-!
# The effect of merging folders

Merging the folders of a tree is a loop, in which a folder absorbs only children, inside a recursion
to the children that it has then. Both end in every tree. No path down to a leaf changes, no folder
is left with a folder as its only child, and only what is reached through folders is touched.

* `Collapses`: the loop and the recursion, with no bound on either.
* `Ranked.collapses_iff`: they end, with what `mergeFolders` computes.
* `Ranked.merged_mergeFolders`: a folder that could still absorb its only child is not left.
* `mergeFolders_effect`: what merging the folders of a tree comes to.
-/

namespace ReportTree.Forest

/-- The node absorbs its only child until that is no folder. -/
inductive AbsorbsFolders (folder : Text) (i : NodeId) : Forest → Forest → Prop
  | done {f : Forest} (honly : f.onlyFolder? i folder = none) : AbsorbsFolders folder i f f
  | step {f g : Forest} {c : NodeId} (honly : f.onlyFolder? i folder = some c)
      (h : AbsorbsFolders folder i (f.absorbOnlyChild i "/") g) : AbsorbsFolders folder i f g

/-- The folders of the trees below the nodes are merged, one tree after the other. A node with
another icon is left alone. A folder absorbs first, unless it has no parent, is sorted then, and
goes on to the children that it lists now. -/
inductive Collapses (folder : Text) : List NodeId → Forest → Forest → Prop
  | nil {f : Forest} : Collapses folder [] f f
  | other {f g : Forest} {i : NodeId} {is : List NodeId} (hi : (f.label i).icon ≠ folder)
      (h : Collapses folder is f g) : Collapses folder (i :: is) f g
  | root {f g k : Forest} {i : NodeId} {is : List NodeId} (hi : (f.label i).icon = folder)
      (hroot : f.parent i = none)
      (hbelow : Collapses folder ((f.sortChildren i).children i) (f.sortChildren i) k)
      (h : Collapses folder is k g) : Collapses folder (i :: is) f g
  | folder {f f' g k : Forest} {i : NodeId} {is : List NodeId} (hi : (f.label i).icon = folder)
      (hparent : f.parent i ≠ none) (habsorb : AbsorbsFolders folder i f f')
      (hbelow : Collapses folder ((f'.sortChildren i).children i) (f'.sortChildren i) k)
      (h : Collapses folder is k g) : Collapses folder (i :: is) f g

variable {f g k : Forest} {rank : NodeId → Nat} {folder : Text} {i j a c : NodeId}
  {is js cs : List NodeId}

/-! ## The loop and the recursion -/

theorem AbsorbsFolders.unique (hg : AbsorbsFolders folder i f g)
    (hk : AbsorbsFolders folder i f k) : g = k := by
  induction hg with
  | done honly =>
    cases hk with
    | done => rfl
    | step honly' => simp [honly] at honly'
  | step honly _ ih =>
    cases hk with
    | done honly' => simp [honly] at honly'
    | step _ hk => exact ih hk

theorem Collapses.unique (hg : Collapses folder is f g) (hk : Collapses folder is f k) : g = k := by
  induction hg generalizing k with
  | nil =>
    cases hk
    rfl
  | other hi _ ih =>
    cases hk with
    | other _ hk => exact ih hk
    | root hi' | folder hi' => exact absurd hi' hi
  | root hi hroot _ _ ihbelow ih =>
    cases hk with
    | other hi' => exact absurd hi hi'
    | root _ _ hbelow hk =>
      obtain rfl := ihbelow hbelow
      exact ih hk
    | folder _ hparent => exact absurd hroot hparent
  | folder hi hparent habsorb _ _ ihbelow ih =>
    cases hk with
    | other hi' => exact absurd hi hi'
    | root _ hroot => exact absurd hroot hparent
    | folder _ _ habsorb' hbelow hk =>
      obtain rfl := habsorb.unique habsorb'
      obtain rfl := ihbelow hbelow
      exact ih hk

theorem Collapses.append (hg : Collapses folder is f g) (hk : Collapses folder js g k) :
    Collapses folder (is ++ js) f k := by
  induction hg with
  | nil => exact hk
  | other hi _ ih => exact .other hi (ih hk)
  | root hi hroot hbelow _ _ ih => exact .root hi hroot hbelow (ih hk)
  | folder hi hparent habsorb hbelow _ _ ih => exact .folder hi hparent habsorb hbelow (ih hk)

/-- Steps that leave no only folder are the whole loop. -/
theorem absorbsFolders_absorbFolders {steps : Nat}
    (h : (absorbFolders folder i steps f).onlyFolder? i folder = none) :
    AbsorbsFolders folder i f (absorbFolders folder i steps f) := by
  induction steps generalizing f with
  | zero => exact .done h
  | succ steps ih =>
    rw [absorbFolders] at h ⊢
    cases honly : f.onlyFolder? i folder with
    | none => exact .done honly
    | some c =>
      rw [honly] at h
      exact .step honly (ih h)

/-- A loop over nodes collapses all of them if every turn collapses one. -/
theorem collapses_foldl {step : Forest → NodeId → Forest} (hr : f.Ranked rank)
    (hranked : ∀ {f c}, f.Ranked rank → (step f c).Ranked rank)
    (hstep : ∀ f, f.Ranked rank → ∀ c ∈ cs, Collapses folder [c] f (step f c)) :
    Collapses folder cs f (cs.foldl step f) := by
  induction cs generalizing f with
  | nil => exact .nil
  | cons c cs ih =>
    have hfirst := hstep f hr c List.mem_cons_self
    exact hfirst.append (ih (hranked hr) fun g hg d hd => hstep g hg d (List.mem_cons_of_mem c hd))

/-- There are levels enough where there are more of them than ranks. -/
theorem Ranked.collapses_mergeFoldersTo {depth : Nat} (hr : f.Ranked rank)
    (hdepth : rank i < depth) : Collapses folder [i] f (mergeFoldersTo folder depth f i) := by
  induction depth generalizing f i with
  | zero => exact absurd hdepth (Nat.not_lt_zero _)
  | succ depth ih =>
    have hbelow {f : Forest} (hr : f.Ranked rank) :
        Collapses folder ((f.sortChildren i).children i) (f.sortChildren i)
          (((f.sortChildren i).children i).foldl (mergeFoldersTo folder depth)
            (f.sortChildren i)) := by
      refine collapses_foldl (hr.sortChildren) (folding_mergeFoldersTo folder depth _ _).ranked
        fun g hg c hc => ih hg ?_
      have hlt := hr.sortChildren.lt i c hc
      omega
    rw [mergeFoldersTo]
    split
    · next hi =>
      cases hparent : f.parent i with
      | none => exact .root hi hparent (hbelow hr) .nil
      | some p =>
        have hne : f.parent i ≠ none := by simp [hparent]
        have honly : (absorbFolders folder i f.size f).onlyFolder? i folder = none := by
          refine hr.onlyFolder?_absorbFolders fun c hc => ?_
          have hlt := hr.lt i c hc
          have hle := hr.le i
          omega
        exact .folder hi hne (absorbsFolders_absorbFolders honly)
          (hbelow ((folding_absorbFolders hne hi f.size).ranked hr)) .nil
    · next hi => exact .other hi .nil

/-- The loop and the recursion end, and in one way only. -/
theorem Ranked.collapses_iff (hr : f.Ranked rank) (hi : i < f.size) :
    Collapses folder [i] f g ↔ g = f.mergeFolders i folder := by
  have hmerge : Collapses folder [i] f (f.mergeFolders i folder) :=
    hr.collapses_mergeFoldersTo (hr.lt_size hi)
  constructor
  · exact fun h => h.unique hmerge
  · rintro rfl
    exact hmerge

/-! ## Paths -/

theorem Ranked.perm_leafPaths_mergeFolders (hr : f.Ranked rank) (hf : f.Coherent)
    (hi : i < f.size) :
    ((f.mergeFolders i folder).tree i).leafPaths.Perm (f.tree i).leafPaths := by
  by_cases hparent : f.parent i = none
  · rw [hr.tree_mergeFolders_root hf hparent hi]
    split
    · exact Tree.perm_leafPaths_foldedBelow folder _
    · rfl
  · rw [hr.tree_mergeFolders hf hparent]
    exact Tree.perm_leafPaths_folded folder _

/-! ## Nothing left to merge -/

/-- A root stays one. -/
theorem Folding.parent_eq_none (h : Folding folder f cs g) (hf : f.Coherent)
    (hj : f.parent j = none) : g.parent j = none := by
  induction h with
  | refl => exact hj
  | absorb h _ _ hchildren _ ih =>
    rw [(absorbOnlyChild_spec "/" hchildren rfl).2.2.2, if_neg fun hc => ?_, ih]
    -- A child of the only child would have a parent.
    rw [(h.edits.coherent hf).parent_eq hc.1] at ih
    cases ih
  | sort _ i ih =>
    rw [sortChildren, parent_modifyChildren]
    exact ih

theorem ThroughFolders.cases_head (h : f.ThroughFolders folder i j) :
    j = i ∨ ∃ c ∈ f.children i, f.ThroughFolders folder c j := by
  induction h with
  | self => exact .inl rfl
  | child _ hc hicon ih =>
    right
    rcases ih with rfl | ⟨d, hd, hway⟩
    · exact ⟨_, hc, .self hicon⟩
    · exact ⟨d, hd, hway.child hc hicon⟩

/-- What is reached through folders in a tree with nothing left to merge has no only folder. -/
theorem Ranked.onlyFolder?_of_merged (hr : f.Ranked rank) (hi : (f.tree i).Merged folder)
    (h : f.ThroughFolders folder i j) : f.onlyFolder? j folder = none := by
  suffices hmerged : (f.tree j).Merged folder by
    cases hmerged with
    | other hj => exact absurd h.icon_eq (by rwa [label_tree] at hj)
    | folder honly => simpa [hr.onlyFolder?_tree] using honly
  induction h with
  | self => exact hi
  | child hj hc _ ih =>
    cases ih with
    | other hj' => exact absurd hj.icon_eq (by rwa [label_tree] at hj')
    | folder _ hchildren =>
      rw [hr.children_tree] at hchildren
      exact hchildren _ (List.mem_map_of_mem hc)

/-- No folder that is reached through folders, and has a parent, can absorb anything more. -/
theorem Ranked.merged_mergeFolders (hr : f.Ranked rank) (hf : f.Coherent) (hi : i < f.size)
    (hj : (f.mergeFolders i folder).ThroughFolders folder i j)
    (hparent : (f.mergeFolders i folder).parent j ≠ none) :
    (f.mergeFolders i folder).onlyFolder? j folder = none := by
  have hfold := folding_mergeFolders folder f i
  have hranked := hfold.ranked hr
  by_cases hroot : f.parent i = none
  · -- The root itself absorbs nothing; its children have absorbed all they could.
    have hicon : (f.label i).icon = folder := by
      have hstart := hj.icon_start
      rwa [hfold.label_eq] at hstart
    rcases hj.cases_head with rfl | ⟨c, hc, hway⟩
    · exact absurd (hfold.parent_eq_none hf hroot) hparent
    · have htree : (f.mergeFolders i folder).tree i = (f.tree i).foldedBelow folder := by
        rw [hr.tree_mergeFolders_root hf hroot hi, if_pos hicon]
      refine hranked.onlyFolder?_of_merged (Tree.merged_of_mem_foldedBelow (t := f.tree i) ?_) hway
      rw [← htree, hranked.children_tree]
      exact List.mem_map_of_mem hc
  · refine hranked.onlyFolder?_of_merged ?_ hj
    rw [hr.tree_mergeFolders hf hroot]
    exact Tree.merged_folded folder _

/-! ## What stays -/

/-- A node below one that is no folder is not reached through folders. -/
theorem not_throughFolders_of_descends (hf : f.Coherent) (ha : f.Acyclic) (hia : f.Within i a)
    (hicon : (f.label a).icon ≠ folder) (haj : f.Descends a j) : ¬f.ThroughFolders folder i j := by
  intro h
  induction h with
  | self =>
    -- The node would be below itself.
    have hcycle : f.Descends a a := haj.trans_left hia
    exact ha a (hcycle.ascends hf)
  | @child k c hk hc _ ih =>
    obtain ⟨b, hab, hb⟩ := Relation.TransGen.tail'_iff.1 haj
    rw [hf.eq_of_mem hb hc] at hab
    rcases Relation.reflTransGen_iff_eq_or_transGen.1 hab with rfl | hak
    · exact hicon hk.icon_eq
    · exact ih hak

/-- Merging touches no node below one that is no folder. -/
theorem untouched_mergeFolders (hf : f.Coherent) (ha : f.Acyclic) (hia : f.Within i a)
    (hicon : (f.label a).icon ≠ folder) (haj : f.Descends a j) :
    (f.mergeFolders i folder).label j = f.label j ∧
      (f.mergeFolders i folder).parent j = f.parent j ∧
      (f.mergeFolders i folder).children j = f.children j := by
  have hsame {j : NodeId} (h : ¬f.ThroughFolders folder i j) :
      Same f (f.mergeFolders i folder) j := same_mergeFoldersTo f.size f i h
  obtain ⟨hlabel, hchildren⟩ := hsame (not_throughFolders_of_descends hf ha hia hicon haj)
  refine ⟨hlabel, ?_, hchildren⟩
  -- The parent lists the node as before, so it is named as before.
  obtain ⟨b, hab, hb⟩ := Relation.TransGen.tail'_iff.1 haj
  have hbsame : Same f (f.mergeFolders i folder) b := by
    rcases Relation.reflTransGen_iff_eq_or_transGen.1 hab with rfl | hab
    · exact hsame fun h => hicon h.icon_eq
    · exact hsame (not_throughFolders_of_descends hf ha hia hicon hab)
  have hcoherent := (folding_mergeFolders folder f i).edits.coherent hf
  rw [hf.parent_eq hb, hcoherent.parent_eq (hbsame.2 ▸ hb)]

/-! ## Merging -/

/-- Merging the folders of a tree. The loop and the recursion end, with one forest. The paths down
to the leaves are those that were there. No folder that is reached through folders, and has a parent,
has a folder as its only child. Nothing that a node shows changes but its name, and nothing at all
changes below a node that is no folder. What is listed afterwards names the node that lists it. -/
theorem mergeFolders_effect (hf : f.Coherent) (ha : f.Acyclic) (hi : i < f.size) (folder : Text) :
    ∃ g, (∀ k, Collapses folder [i] f k ↔ k = g) ∧ f.mergeFolders i folder = g ∧
      (g.tree i).leafPaths.Perm (f.tree i).leafPaths ∧
      (∀ j, g.ThroughFolders folder i j → g.parent j ≠ none →
        ∀ c, g.children j = [c] → (g.label c).icon ≠ folder) ∧
      (∀ j, g.label j = { f.label j with name := (g.label j).name }) ∧
      (∀ a j, f.Within i a → (f.label a).icon ≠ folder → f.Descends a j →
        g.label j = f.label j ∧ g.parent j = f.parent j ∧ g.children j = f.children j) ∧
      ∀ j, ∀ c ∈ g.children j, g.parent c = some j := by
  have hr := ha.ranked hf
  have hfold := folding_mergeFolders folder f i
  refine ⟨_, fun k => hr.collapses_iff hi, rfl, hr.perm_leafPaths_mergeFolders hf hi,
    fun j hj hparent c hc hicon => ?_, hfold.label_eq, fun a j => untouched_mergeFolders hf ha,
    fun j c => (hfold.edits.coherent hf).parent_eq⟩
  have honly := hr.merged_mergeFolders hf hi hj hparent
  simp [onlyFolder?, hc, hicon] at honly

/-- A folder that holds nothing but a folder with two files, which are sorted. -/
theorem mergeFolders_effect_absorbed :
    ∃ f g : Forest, f.Coherent ∧ f.Acyclic ∧ f.children 1 = [2] ∧ f.children 2 = [3, 4] ∧
      Collapses "folder" [1] f g ∧ g.children 1 = [4, 3] ∧ (g.label 1).name = "lib/core" ∧
      (g.tree 1).leafPaths.Perm ["lib/core/b.py", "lib/core/a.py"] ∧
      g.ThroughFolders "folder" 1 1 ∧ g.parent 4 = some 1 := by
  have hlib := (fresh_empty.addRoot "Build").owned.addBelow (i := 0) (by decide)
    (x := { name := "lib", icon := "folder" })
  have hcore := hlib.addBelow (i := 1) (by decide) (x := { name := "core", icon := "folder" })
  have howned := (hcore.addBelow (i := 2) (by decide) (x := { name := "b.py" })).addBelow (i := 2)
    (by decide) (x := { name := "a.py" })
  obtain ⟨g, hcollapses, hg, hpaths, -, hlabel, -, hparent⟩ :=
    mergeFolders_effect howned.coherent howned.acyclic (i := 1) (by decide) "folder"
  have hchildren : g.children 1 = [4, 3] := by
    rw [← hg]
    cbv
  refine ⟨_, g, howned.coherent, howned.acyclic, by decide, by decide, (hcollapses g).2 rfl,
    hchildren, ?_, hpaths, .self ?_, hparent 1 4 ?_⟩
  · rw [← hg]
    cbv
  · rw [hlabel]
    show (label _ 1).icon = _
    decide
  · simp [hchildren]

end ReportTree.Forest
