import ReportTree.Forest.Merge
import ReportTree.Proofs.Forest.Growth

/-!
# Folding

Folders are merged by steps in which a folder absorbs its only child, a folder as well, and steps in
which children are put in order. A node that is absorbed is listed nowhere from then on.

* `Folding`: such steps, with the nodes that were absorbed.
* `folding_mergeFolders`, `folding_mergeFoldersBelow`: merging is made of these steps.
-/

namespace ReportTree.Forest

/-- Steps in which folders are merged, one after the other, and the nodes absorbed in them. -/
inductive Folding (folder : Text) (f : Forest) : List NodeId → Forest → Prop
  | refl : Folding folder f [] f
  /-- A folder that has a parent absorbs its only child, a folder. -/
  | absorb {cs : List NodeId} {g : Forest} (h : Folding folder f cs g) {i c : NodeId}
      (hparent : g.parent i ≠ none) (hi : (g.label i).icon = folder) (hchildren : g.children i = [c])
      (hc : (g.label c).icon = folder) : Folding folder f (cs ++ [c]) (g.absorbOnlyChild i "/")
  /-- Children are put in order. -/
  | sort {cs : List NodeId} {g : Forest} (h : Folding folder f cs g) (i : NodeId) :
      Folding folder f cs (g.sortChildren i)

/-- The only child of a node is what it absorbs. -/
def absorbedBy (f : Forest) (i : NodeId) : List NodeId :=
  match f.children i with
  | [c] => [c]
  | _ => []

/-- What `i` absorbs as long as only children are folders, `steps` of them at most. -/
def absorbedFolders (folder : Text) (i : NodeId) : (steps : Nat) → Forest → List NodeId
  | 0, _ => []
  | steps + 1, f =>
    match f.onlyFolder? i folder with
    | none => []
    | some c => c :: absorbedFolders folder i steps (f.absorbOnlyChild i "/")

/-- What is absorbed where the folders of the tree below `i` are merged, `depth` levels of it. -/
def absorbedTo (folder : Text) : (depth : Nat) → Forest → NodeId → List NodeId
  | 0, _, _ => []
  | depth + 1, f, i =>
    if (f.label i).icon = folder then
      let cs := if (f.parent i).isSome then absorbedFolders folder i f.size f else []
      let f := if (f.parent i).isSome then absorbFolders folder i f.size f else f
      let f := f.sortChildren i
      cs ++ along (mergeFoldersTo folder depth) (absorbedTo folder depth) f (f.children i)
    else []

variable {folder : Text} {f g k : Forest} {i : NodeId} {cs ds : List NodeId}

theorem Folding.trans (h : Folding folder f cs g) (hk : Folding folder g ds k) :
    Folding folder f (cs ++ ds) k := by
  induction hk with
  | refl => rwa [List.append_nil]
  | absorb _ hparent hi hchildren hc ih =>
    rw [← List.append_assoc]
    exact ih.absorb hparent hi hchildren hc
  | sort _ i ih => exact ih.sort i

theorem spec_of_onlyFolder?_eq_some {c : NodeId} (h : f.onlyFolder? i folder = some c) :
    f.children i = [c] ∧ (f.label c).icon = folder := by
  unfold onlyFolder? at h
  split at h
  · next d hd =>
    split at h
    · next hicon =>
      cases h
      exact ⟨hd, hicon⟩
    · cases h
  · cases h

/-- A folder that absorbs another stays a folder with a parent. -/
theorem folding_absorbFolders (hparent : f.parent i ≠ none) (hi : (f.label i).icon = folder)
    (steps : Nat) :
    Folding folder f (absorbedFolders folder i steps f) (absorbFolders folder i steps f) := by
  induction steps generalizing f with
  | zero => exact .refl
  | succ steps ih =>
    rw [absorbedFolders, absorbFolders]
    cases honly : f.onlyFolder? i folder with
    | none => exact .refl
    | some c =>
      obtain ⟨hchildren, hc⟩ := spec_of_onlyFolder?_eq_some honly
      refine (Folding.refl.absorb hparent hi hchildren hc).trans (ih ?_ ?_)
      · rw [(absorbOnlyChild_spec "/" hchildren rfl).2.2.2]
        split
        · exact Option.some_ne_none i
        · exact hparent
      · rw [label_absorbOnlyChild "/" hchildren, if_pos rfl]
        exact hi

/-- A loop is made of steps if every turn is. -/
theorem folding_along {step : Forest → NodeId → Forest}
    {record : Forest → NodeId → List NodeId} (h : ∀ g c, Folding folder g (record g c) (step g c))
    (is : List NodeId) : Folding folder f (along step record f is) (is.foldl step f) := by
  induction is generalizing f with
  | nil => exact .refl
  | cons i is ih => exact (h f i).trans ih

theorem folding_mergeFoldersTo (folder : Text) (depth : Nat) (f : Forest) (i : NodeId) :
    Folding folder f (absorbedTo folder depth f i) (mergeFoldersTo folder depth f i) := by
  induction depth generalizing f i with
  | zero => exact .refl
  | succ depth ih =>
    rw [absorbedTo, mergeFoldersTo]
    split
    · next hi =>
      have hmerge : Folding folder f
          (if (f.parent i).isSome then absorbedFolders folder i f.size f else [])
          (if (f.parent i).isSome then absorbFolders folder i f.size f else f) := by
        split
        · next hparent => exact folding_absorbFolders (Option.isSome_iff_ne_none.1 hparent) hi _
        · exact .refl
      exact (hmerge.sort i).trans (folding_along ih _)
    · exact .refl

theorem folding_mergeFolders (folder : Text) (f : Forest) (i : NodeId) :
    Folding folder f (absorbedTo folder f.size f i) (f.mergeFolders i folder) :=
  folding_mergeFoldersTo folder f.size f i

theorem folding_mergeFoldersBelow (folder : Text) (f : Forest) (i : NodeId) :
    Folding folder f
      (along (fun g c => g.mergeFolders c folder) (fun g c => absorbedTo folder g.size g c) f
        (f.children i))
      (f.mergeFoldersBelow i folder) :=
  folding_along (folding_mergeFolders folder) _

end ReportTree.Forest
