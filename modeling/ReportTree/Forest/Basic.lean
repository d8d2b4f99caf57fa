import ReportTree.Tree

/-!
# Forests

Nodes with identity. A forest stores its nodes in the order in which they were made; a node is named
by its place in that order and never goes away. Every node knows its parent and lists its children.
The two are kept apart: an operation may leave a node that names a parent which does not list it.

* `Forest.get_modify`, `Forest.get_push`: how a node reads after a node was changed or made.
-/

namespace ReportTree

/-- The place of a node among the nodes of its forest. -/
abbrev NodeId := Nat

/-- A node: what it shows, its parent and its children in order. -/
structure Node where
  label : Label
  parent : Option NodeId := none
  children : List NodeId := []
  deriving DecidableEq, Inhabited

/-- The nodes made so far. -/
structure Forest where
  nodes : Array Node := #[]
  deriving Inhabited

namespace Forest

/-- The forest without nodes. -/
def empty : Forest := {}

/-- How many nodes there are. -/
def size (f : Forest) : Nat := f.nodes.size

/-- The node `i`; a node without a label if there is none. -/
def get (f : Forest) (i : NodeId) : Node := f.nodes[i]?.getD default

/-- Changes the node `i`. -/
def modify (f : Forest) (i : NodeId) (g : Node → Node) : Forest := ⟨f.nodes.modify i g⟩

/-- Makes a node. Its name is the old size. -/
def push (f : Forest) (n : Node) : Forest := ⟨f.nodes.push n⟩

/-! ## Reading -/

/-- What the node `i` shows. -/
def label (f : Forest) (i : NodeId) : Label := (f.get i).label

/-- The level that the node `i` shows. -/
def level (f : Forest) (i : NodeId) : Level := (f.label i).level

/-- The parent of the node `i`, whether or not it lists the node. -/
def parent (f : Forest) (i : NodeId) : Option NodeId := (f.get i).parent

/-- The nodes that the node `i` lists. -/
def children (f : Forest) (i : NodeId) : List NodeId := (f.get i).children

/-- The child at position `k`; a negative position counts from the end. -/
def child? (f : Forest) (i : NodeId) (k : Int) : Option NodeId :=
  let cs := f.children i
  if 0 ≤ k then cs[k.toNat]?
  else if -k ≤ cs.length then cs[cs.length - (-k).toNat]?
  else none

/-- The first child with this name. -/
def childNamed? (f : Forest) (i : NodeId) (name : Text) : Option NodeId :=
  (f.children i).find? fun c => (f.label c).name = name

/-! ## Changing -/

/-- Changes what the node `i` shows. -/
def modifyLabel (f : Forest) (i : NodeId) (g : Label → Label) : Forest :=
  f.modify i fun n => { n with label := g n.label }

/-- Changes the list of children of the node `i`. -/
def modifyChildren (f : Forest) (i : NodeId) (g : List NodeId → List NodeId) : Forest :=
  f.modify i fun n => { n with children := g n.children }

/-- Names another parent; the lists of children stay as they are. -/
def setParent (f : Forest) (i : NodeId) (p : Option NodeId) : Forest :=
  f.modify i fun n => { n with parent := p }

/-- Shows another level; nothing else changes, above or below. -/
def showLevel (f : Forest) (i : NodeId) (l : Level) : Forest :=
  f.modifyLabel i fun x => { x with level := l }

/-- Shows another icon. -/
def setIcon (f : Forest) (i : NodeId) (icon : Text) : Forest :=
  f.modifyLabel i fun x => { x with icon := icon }

/-- Marks a node to be shown open. -/
def expand (f : Forest) (i : NodeId) : Forest :=
  f.modifyLabel i fun x => { x with expanded := true }

/-- Lists the node `c` as the last child of `i`. -/
def appendChild (f : Forest) (i c : NodeId) : Forest := f.modifyChildren i (· ++ [c])

/-- Makes a node without a parent. -/
def addRoot (f : Forest) (name : Text) : NodeId × Forest :=
  (f.size, f.push { label := { name := name } })

/-- Makes a node below `i` that shows `label`, as its last child. -/
def addBelow (f : Forest) (i : NodeId) (label : Label) : NodeId × Forest :=
  (f.size, (f.push { label := label, parent := some i }).appendChild i f.size)

/-! ## How a node reads -/

@[simp] theorem size_modify (f : Forest) (i : NodeId) (g : Node → Node) :
    (f.modify i g).size = f.size := by
  simp [modify, size]

@[simp] theorem size_push (f : Forest) (n : Node) : (f.push n).size = f.size + 1 := by
  simp [push, size]

theorem get_of_size_le {f : Forest} {i : NodeId} (h : f.size ≤ i) : f.get i = default := by
  have : f.nodes[i]? = none := Array.getElem?_eq_none_iff.2 h
  simp [get, this]

theorem get_modify {f : Forest} {i j : NodeId} {g : Node → Node} (hi : i < f.size) :
    (f.modify i g).get j = if i = j then g (f.get j) else f.get j := by
  unfold get modify
  simp only [Array.getElem?_modify]
  split
  · next h =>
    subst h
    have : f.nodes[i]? = some f.nodes[i] := Array.getElem?_eq_getElem hi
    simp [this]
  · rfl

theorem get_modify_ne {f : Forest} {i j : NodeId} {g : Node → Node} (hij : i ≠ j) :
    (f.modify i g).get j = f.get j := by
  unfold get modify
  simp [Array.getElem?_modify, hij]

theorem get_push {f : Forest} {n : Node} {j : NodeId} :
    (f.push n).get j = if j = f.size then n else f.get j := by
  unfold get push size
  simp only [Array.getElem?_push]
  split <;> simp_all

end Forest

end ReportTree
