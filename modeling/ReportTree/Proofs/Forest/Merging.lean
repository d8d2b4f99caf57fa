import ReportTree.Proofs.Forest.Folding
import ReportTree.Proofs.Forest.Insertion

/-!
# Merging folders

Folders are merged by steps in which a folder absorbs its only child, a folder as well, and steps in
which children are put in order. No step changes which paths lead to files: the name of a folder that
absorbs another one has the slash that stood between the two.

* `Folding.merges`: merging is made of these steps.
* `spells_absorbOnlyChild_iff`: the paths after a folder has absorbed another one.
* `Tidy.merges`: a step keeps the paths of the files, and no folder becomes empty.
-/

namespace ReportTree.Forest

/-- A step in which folders are merged. -/
inductive Merges (folder : Text) (f : Forest) : Forest → Prop
  /-- A folder that has a parent absorbs its only child, a folder. -/
  | absorb {i c : NodeId} (hparent : f.parent i ≠ none) (hi : (f.label i).icon = folder)
      (hchildren : f.children i = [c]) (hc : (f.label c).icon = folder) :
      Merges folder f (f.absorbOnlyChild i "/")
  /-- Children are put in order. -/
  | sort (i : NodeId) : Merges folder f (f.sortChildren i)

variable {f g : Forest} {i j r c a : NodeId} {folder file t : Text}

/-- Merging is made of these steps. -/
theorem Folding.merges {cs : List NodeId} (h : Folding folder f cs g) :
    Relation.ReflTransGen (Merges folder) f g := by
  induction h with
  | refl => exact .refl
  | absorb _ hparent hi hchildren hc ih => exact ih.tail (.absorb hparent hi hchildren hc)
  | sort _ i ih => exact ih.tail (.sort i)

/-! ## Paths -/

/-- Where no less is listed and names are the same, the same paths are spelled. -/
theorem Spells.mono (h : f.Spells j a t) (hchildren : ∀ k, ∀ c ∈ f.children k, c ∈ g.children k)
    (hname : ∀ k, (g.label k).name = (f.label k).name) : g.Spells j a t := by
  induction h with
  | here => exact .here
  | @step i c t hc _ ih =>
    rw [← hname c]
    exact .step (hchildren i c hc) ih

/-- An only child, its children and the node above are different nodes. -/
theorem Rising.ne_of_only_child (hr : f.Rising) (hc : f.children i = [c]) :
    i ≠ c ∧ ∀ d ∈ f.children c, d ≠ i ∧ d ≠ c := by
  have hic : i < c := hr i c (hc ▸ List.mem_singleton_self c)
  refine ⟨Nat.ne_of_lt hic, fun d hd => ?_⟩
  have hcd : c < d := hr c d hd
  exact ⟨Nat.ne_of_gt (Nat.lt_trans hic hcd), Nat.ne_of_gt hcd⟩

section Absorb

variable (hf : f.Coherent) (hr : f.Rising) (hc : f.children i = [c])
include hf hr hc

/-- A path after `i` has absorbed its only child was one before, from the child on if it is one from
`i` on. -/
theorem Spells.of_absorbOnlyChild (hji : j ≠ i) (h : (f.absorbOnlyChild i "/").Spells j a t)
    (hac : a ≠ c) : f.Spells j (if a = i then c else a) t := by
  obtain ⟨-, -, hchildren, -⟩ := absorbOnlyChild_spec "/" hc rfl
  have hlabel {k : NodeId} := label_absorbOnlyChild (j := k) "/" hc
  obtain ⟨-, hbelow⟩ := hr.ne_of_only_child hc
  induction h with
  | here =>
    rw [if_neg hji]
    exact .here
  | @step a d t hd _ ih =>
    rw [hchildren] at hd
    by_cases hai : a = i
    · subst hai
      rw [if_pos rfl] at hd ⊢
      obtain ⟨hdi, hdc⟩ := hbelow d hd
      have hrest := ih hdc
      rw [if_neg hdi] at hrest
      rw [hlabel, if_neg (Ne.symm hdi)]
      exact .step hd hrest
    · rw [if_neg (Ne.symm hai), if_neg (Ne.symm hac)] at hd
      rw [if_neg hai, hlabel]
      have hdc : d ≠ c := by
        rintro rfl
        exact hai (hf.eq_of_mem hd (hc ▸ List.mem_singleton_self d))
      have hrest := ih hdc
      by_cases hdi : d = i
      · subst hdi
        rw [if_pos rfl] at hrest ⊢
        have hpath := Spells.step hd (.step (hc ▸ List.mem_singleton_self c) hrest)
        simpa [Text.slash_eq] using hpath
      · rw [if_neg hdi] at hrest
        rw [if_neg (Ne.symm hdi)]
        exact .step hd hrest

/-- A path before is one after; one from the only child on is one from `i` on, and so is what is left
of one from `i` on after the name of the child. -/
theorem Spells.to_absorbOnlyChild (hji : j ≠ i) (hjc : j ≠ c) (h : f.Spells j a t) :
    (a = c → (f.absorbOnlyChild i "/").Spells j i t) ∧
      (a ≠ c → a ≠ i → (f.absorbOnlyChild i "/").Spells j a t) ∧
      (a = i → ∃ rest, t = .scalar '/' :: (f.label c).name ++ rest ∧
        (f.absorbOnlyChild i "/").Spells j i rest) := by
  obtain ⟨-, -, hchildren, -⟩ := absorbOnlyChild_spec "/" hc rfl
  have hlabel {k : NodeId} := label_absorbOnlyChild (j := k) "/" hc
  obtain ⟨-, hbelow⟩ := hr.ne_of_only_child hc
  induction h with
  | here => exact ⟨fun h => absurd h hjc, fun _ _ => .here, fun h => absurd h hji⟩
  | @step a d t hd _ ih =>
    obtain ⟨hchild, hother, hself⟩ := ih
    refine ⟨?_, fun hac hai => ?_, ?_⟩
    · rintro rfl
      obtain ⟨hdi, hdc⟩ := hbelow d hd
      have hname : (f.label d).name = ((f.absorbOnlyChild i "/").label d).name := by
        rw [hlabel, if_neg (Ne.symm hdi)]
      rw [hname]
      exact .step (by rwa [hchildren, if_pos rfl]) (hother hdc hdi)
    · have hmem : d ∈ (f.absorbOnlyChild i "/").children a := by
        rwa [hchildren, if_neg (Ne.symm hai), if_neg (Ne.symm hac)]
      have hdc : d ≠ c := by
        rintro rfl
        exact hai (hf.eq_of_mem hd (hc ▸ List.mem_singleton_self d))
      by_cases hdi : d = i
      · obtain ⟨rest, rfl, hrest⟩ := hself hdi
        subst hdi
        have hpath := Spells.step hmem hrest
        rw [hlabel, if_pos rfl] at hpath
        simpa [Text.slash_eq] using hpath
      · have hname : (f.label d).name = ((f.absorbOnlyChild i "/").label d).name := by
          rw [hlabel, if_neg (Ne.symm hdi)]
        rw [hname]
        exact .step hmem (hother hdc hdi)
    · rintro rfl
      rw [hc, List.mem_singleton] at hd
      subst hd
      exact ⟨t, rfl, hchild rfl⟩

theorem spells_absorbOnlyChild_iff (hji : j ≠ i) (hjc : j ≠ c) (hai : a ≠ i) (hac : a ≠ c) :
    (f.absorbOnlyChild i "/").Spells j a t ↔ f.Spells j a t := by
  constructor
  · intro h
    have hpath := h.of_absorbOnlyChild hf hr hc hji hac
    rwa [if_neg hai] at hpath
  · exact fun h => (h.to_absorbOnlyChild hf hr hc hji hjc).2.1 hac hai

end Absorb

/-- What is below a node after another one has absorbed its child was below it before. -/
theorem within_of_absorbOnlyChild {sep : Text} (hc : f.children i = [c])
    (h : (f.absorbOnlyChild i sep).Within a j) : f.Within a j := by
  obtain ⟨-, -, hchildren, -⟩ := absorbOnlyChild_spec sep hc rfl
  induction h with
  | refl => exact .refl
  | @tail k d _ hd ih =>
    rw [hchildren] at hd
    split at hd
    · next hik =>
      subst hik
      exact (ih.tail (hc ▸ List.mem_singleton_self c)).tail hd
    · split at hd
      · cases hd
      · exact ih.tail hd

/-! ## Files and folders -/

/-- The tree below `r` shows exactly the files of `shown` with their paths, and all that is below `r`
is settled. -/
structure Tidy (folder file : Text) (r : NodeId) (shown : NodeId → Text → Prop) (f : Forest) :
    Prop where
  coherent : f.Coherent
  rising : f.Rising
  root_lt : r < f.size
  parent_root : f.parent r = none
  settled : ∀ j, f.Within r j → j ≠ r → Settled folder file f j
  shown_iff : ∀ j t, f.Spells j r t ∧ (f.label j).icon = file ↔ shown j t

variable {shown : NodeId → Text → Prop} {done : List (List Text)}

/-- After the paths `done` were inserted, the files are those that these paths lead to. -/
theorem Inserted.tidy (h : Inserted folder file r f done r) :
    Tidy folder file r
      (fun j t => ∃ names ∈ done, f.Leads r names j ∧ Text.slashed names = t) f where
  coherent := h.coherent
  rising := h.rising
  root_lt := h.root_lt
  parent_root := h.parent_root
  settled j hj hjr := (h.settled j hj hjr).resolve_right fun hnew => hjr hnew.1
  shown_iff j t := by
    rw [spells_iff]
    constructor
    · rintro ⟨⟨names, hleads, ht⟩, hicon⟩
      exact ⟨names, (h.file_iff names j hleads).1 hicon, hleads, ht⟩
    · rintro ⟨names, hdone, hleads, ht⟩
      exact ⟨⟨names, hleads, ht⟩, (h.file_iff names j hleads).2 hdone⟩

theorem Tidy.sortChildren (h : Tidy folder file r shown f) (i : NodeId) :
    Tidy folder file r shown (f.sortChildren i) := by
  have hmem (k d : NodeId) : d ∈ (f.sortChildren i).children k ↔ d ∈ f.children k :=
    mem_children_sortChildren_iff
  have hlabel (k : NodeId) : (f.sortChildren i).label k = f.label k := label_modifyChildren
  constructor
  case coherent => exact h.coherent.sortChildren
  case rising => exact h.rising.sortChildren
  case root_lt => exact Nat.lt_of_lt_of_eq h.root_lt size_modifyChildren.symm
  case parent_root => exact parent_modifyChildren.trans h.parent_root
  case settled =>
    intro j hj hjr
    have hold : f.Within r j := hj.mono fun k d => (hmem k d).1
    rw [Settled, hlabel]
    refine (h.settled j hold hjr).imp_right fun hfold => ⟨hfold.1, ?_⟩
    obtain ⟨d, hd⟩ := List.exists_mem_of_ne_nil _ hfold.2
    exact List.ne_nil_of_mem ((hmem j d).2 hd)
  case shown_iff =>
    intro j t
    rw [hlabel, ← h.shown_iff]
    refine and_congr_left fun _ => ⟨fun hpath => ?_, fun hpath => ?_⟩
    · exact hpath.mono (fun k d => (hmem k d).1) fun k => by rw [hlabel]
    · exact hpath.mono (fun k d => (hmem k d).2) fun k => by rw [hlabel]

/-- The folder that is absorbed had something in it, which is in the other folder now. -/
theorem Tidy.absorbOnlyChild (h : Tidy folder file r shown f) (hfolder : file ≠ folder)
    (hparent : f.parent i ≠ none) (hi : (f.label i).icon = folder) (hchildren : f.children i = [c])
    (hc : (f.label c).icon = folder) : Tidy folder file r shown (f.absorbOnlyChild i "/") := by
  obtain ⟨hsize, -, hchildren', hparent'⟩ := absorbOnlyChild_spec "/" hchildren rfl
  have hci : c ∈ f.children i := hchildren ▸ List.mem_singleton_self c
  have hri : r ≠ i := fun h' => hparent (h' ▸ h.parent_root)
  have hrlisted {k : NodeId} : r ∉ f.children k := h.coherent.not_mem_children h.parent_root
  have hrc : r ≠ c := fun h' => hrlisted (h' ▸ hci)
  obtain ⟨hic, hbelow⟩ := h.rising.ne_of_only_child hchildren
  have hicon (k : NodeId) : ((f.absorbOnlyChild i "/").label k).icon = (f.label k).icon := by
    rw [label_absorbOnlyChild "/" hchildren]
    split <;> rfl
  constructor
  case coherent => exact h.coherent.absorbOnlyChild
  case rising => exact h.rising.absorbOnlyChild
  case root_lt => exact hsize ▸ h.root_lt
  case parent_root =>
    rw [hparent', if_neg fun hmem => hrlisted hmem.1]
    exact h.parent_root
  case settled =>
    intro j hj hjr
    have hold : f.Within r j := within_of_absorbOnlyChild hchildren hj
    have hjc : j ≠ c := by
      rintro rfl
      obtain h' | ⟨k, -, hk⟩ := hj.cases_tail
      · exact hjr h'
      · rw [hchildren'] at hk
        split at hk
        · exact (hbelow j hk).2 rfl
        · next hik =>
          split at hk
          · cases hk
          · exact hik (h.coherent.eq_of_mem hci hk)
    rw [Settled, hicon, hchildren', if_neg (Ne.symm hjc)]
    by_cases hij : i = j
    · subst hij
      -- The absorbed child is below the root as well.
      have hsettled := h.settled c (hold.tail hci) (Ne.symm hrc)
      rw [if_pos rfl]
      exact .inr ⟨hi, (hsettled.resolve_left fun h' => hfolder (h'.symm.trans hc)).2⟩
    · rw [if_neg hij]
      exact h.settled j hold hjr
  case shown_iff =>
    intro j t
    rw [hicon, ← h.shown_iff]
    refine and_congr_left fun hfile => ?_
    have hji : j ≠ i := fun h' => hfolder (hfile.symm.trans (h' ▸ hi))
    have hjc : j ≠ c := fun h' => hfolder (hfile.symm.trans (h' ▸ hc))
    exact spells_absorbOnlyChild_iff h.coherent h.rising hchildren hji hjc hri hrc

theorem Tidy.merges (h : Tidy folder file r shown f) (hfolder : file ≠ folder)
    (hg : Merges folder f g) : Tidy folder file r shown g := by
  cases hg with
  | absorb hparent hi hchildren hc => exact h.absorbOnlyChild hfolder hparent hi hchildren hc
  | sort i => exact h.sortChildren i

theorem Tidy.mergeFolders (h : Tidy folder file r shown f) (hfolder : file ≠ folder)
    (i : NodeId) : Tidy folder file r shown (f.mergeFolders i folder) := by
  have hsteps := (folding_mergeFolders folder f i).merges
  generalize f.mergeFolders i folder = g at hsteps
  induction hsteps with
  | refl => exact h
  | tail _ hg ih => exact ih.merges hfolder hg

end ReportTree.Forest
