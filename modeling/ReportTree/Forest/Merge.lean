import ReportTree.Forest.Basic

/-!
# Merging nodes

A folder that holds nothing but a folder is shown as one node whose name is the path of both.
Merging takes a name and the children from an only child. That child keeps its parent but is listed
by nobody any more.
-/

namespace ReportTree.Forest

/-- Takes over the name and the children of an only child; `sep` stands between the names. -/
def absorbOnlyChild (f : Forest) (i : NodeId) (sep : Text) : Forest :=
  match f.children i with
  | [c] =>
    let name := (f.label c).name
    let grandchildren := f.children c
    let f := f.modifyChildren c fun _ => []
    let f := f.modifyLabel i fun l => { l with name := l.name ++ sep ++ name }
    let f := f.modifyChildren i fun _ => grandchildren
    grandchildren.foldl (fun f g => f.setParent g (some i)) f
  | _ => f

/-- The only child of `i`, if it has the icon `folder`. -/
def onlyFolder? (f : Forest) (i : NodeId) (folder : Text) : Option NodeId :=
  match f.children i with
  | [c] => if (f.label c).icon = folder then some c else none
  | _ => none

/-- Absorbs only children as long as they are folders, `steps` of them at most. -/
def absorbFolders (folder : Text) (i : NodeId) : (steps : Nat) → Forest → Forest
  | 0, f => f
  | steps + 1, f =>
    match f.onlyFolder? i folder with
    | none => f
    | some _ => absorbFolders folder i steps (f.absorbOnlyChild i "/")

/-- Puts the children of a node in the order of their names. -/
def sortChildren (f : Forest) (i : NodeId) : Forest :=
  f.modifyChildren i fun cs => cs.mergeSort fun a b => (f.label a).name.le (f.label b).name

/-- Merges and sorts the folders of the tree below `i`, `depth` levels of it. A node that is no
folder stays as it is, with everything below it. A node without a parent is no part of a path: it
absorbs nothing. -/
def mergeFoldersTo (folder : Text) : (depth : Nat) → Forest → NodeId → Forest
  | 0, f, _ => f
  | depth + 1, f, i =>
    if (f.label i).icon = folder then
      let f := if (f.parent i).isSome then absorbFolders folder i f.size f else f
      let f := f.sortChildren i
      (f.children i).foldl (mergeFoldersTo folder depth) f
    else f

/-- Merges and sorts the folders of the tree below `i`. -/
def mergeFolders (f : Forest) (i : NodeId) (folder : Text) : Forest :=
  mergeFoldersTo folder f.size f i

/-- Merges and sorts the folders of the trees below the children of `i`. -/
def mergeFoldersBelow (f : Forest) (i : NodeId) (folder : Text) : Forest :=
  (f.children i).foldl (fun f c => f.mergeFolders c folder) f

end ReportTree.Forest
