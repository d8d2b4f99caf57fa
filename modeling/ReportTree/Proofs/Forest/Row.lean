import Mathlib.Data.List.Perm.Subperm
import Mathlib.Logic.Relation
import ReportTree.Forest.View
import ReportTree.Proofs.Forest.Coherence

/-!
# Rows of nodes

A part of a forest as a value: nodes that stand side by side, each with the row of its children
below it. What a forest shows below a node is read off the row there, so that a change of the forest
becomes a change of a row, and an induction over a tree one over a row.

* `Holds`: the forest has the row, no node of which stands in it twice.
* `Holds.tree_eq`, `Holds.nodesBelow_eq`: the tree and the nodes below a node.
* `Lists.within_iff`: the nodes of a row are those that can be reached from its heads.
* `Lists.addBelow`: a new node, in the row.
-/

namespace ReportTree.Forest

/-- Nodes side by side, each with the row below it: the first node, what is below it, and the nodes
that follow it. -/
inductive Row where
  | nil
  | cons (i : NodeId) (below rest : Row)

namespace Row

/-- The nodes that stand side by side. -/
def heads : Row → List NodeId
  | nil => []
  | cons i _ rest => i :: rest.heads

/-- All nodes of a row, every node before what is below it. -/
def nodes : Row → List NodeId
  | nil => []
  | cons i below rest => i :: (below.nodes ++ rest.nodes)

/-- How many levels a row has. -/
def height : Row → Nat
  | nil => 0
  | cons _ below rest => max (below.height + 1) rest.height

/-- The trees that a row stands for, where `label` tells what the nodes show. -/
def trees (label : NodeId → Label) : Row → List Tree
  | nil => []
  | cons i below rest => .node (label i) (below.trees label) :: rest.trees label

/-- A row followed by another. -/
def append : Row → Row → Row
  | nil, w => w
  | cons i below rest, w => cons i below (rest.append w)

/-- A node with nothing below it. -/
def leaf (i : NodeId) : Row := cons i nil nil

/-- The row in which what is below the node `t` has changed. -/
def changeBelow (t : NodeId) (g : Row → Row) : Row → Row
  | nil => nil
  | cons i below rest =>
    cons i (if i = t then g (below.changeBelow t g) else below.changeBelow t g)
      (rest.changeBelow t g)

/-- The row in which the node `n` has become the last one below `t`. -/
def grow (t n : NodeId) : Row → Row := changeBelow t fun w => w.append (leaf n)

variable {t n : NodeId} {g : Row → Row} {w : Row}

theorem height_le_length (w : Row) : w.height ≤ w.nodes.length := by
  induction w with
  | nil => exact Nat.le_refl _
  | cons i below rest hb hr =>
    simp only [height, nodes, List.length_cons, List.length_append]
    omega

theorem height_eq_zero_iff : w.height = 0 ↔ w = nil := by
  cases w <;> simp [height]

@[simp] theorem heads_append (v w : Row) : (v.append w).heads = v.heads ++ w.heads := by
  induction v with
  | nil => rfl
  | cons i below rest _ hr => rw [append, heads, heads, hr, List.cons_append]

@[simp] theorem heads_changeBelow (w : Row) : (w.changeBelow t g).heads = w.heads := by
  induction w with
  | nil => rfl
  | cons i below rest _ hr => rw [changeBelow, heads, heads, hr]

theorem changeBelow_of_not_mem (h : t ∉ w.nodes) : w.changeBelow t g = w := by
  induction w with
  | nil => rfl
  | cons i below rest hb hr =>
    simp only [nodes, List.mem_cons, List.mem_append, not_or] at h
    rw [changeBelow, if_neg (Ne.symm h.1), hb h.2.1, hr h.2.2]

/-- A row with one head is a node and what is below it. -/
theorem exists_below_of_heads_eq (h : w.heads = [t]) : ∃ below, w = cons t below nil := by
  cases w with
  | nil => cases h
  | cons i below rest =>
    rw [heads, List.cons.injEq] at h
    obtain ⟨rfl, hrest⟩ := h
    cases rest with
    | nil => exact ⟨below, rfl⟩
    | cons j below' rest => cases hrest

/-- The labels of the trees, one after the other, are those of the nodes. -/
theorem preorderAll_trees (label : NodeId → Label) (w : Row) :
    Tree.preorderAll (w.trees label) = w.nodes.map label := by
  induction w with
  | nil => rfl
  | cons i below rest hb hr =>
    rw [trees, Tree.preorderAll, Tree.preorder, hb, hr, nodes, List.map_cons, List.map_append,
      List.cons_append]

end Row

/-- Every node of the row lists the nodes at the top of the row below it. -/
def Lists (f : Forest) : Row → Prop
  | .nil => True
  | .cons i below rest => f.children i = below.heads ∧ f.Lists below ∧ f.Lists rest

/-- The forest has the row, no node of which stands in it twice. -/
structure Holds (f : Forest) (w : Row) : Prop where
  lists : f.Lists w
  nodup : w.nodes.Nodup
  lt : ∀ i ∈ w.nodes, i < f.size

variable {f : Forest} {w : Row} {i j : NodeId}

/-! ## What is seen of a row -/

theorem Lists.map_treeTo (h : f.Lists w) {depth : Nat} (hdepth : w.height ≤ depth + 1) :
    w.heads.map (treeTo depth f) = w.trees f.label := by
  induction w generalizing depth with
  | nil => rfl
  | cons i below rest hb hr =>
    obtain ⟨hchildren, hbelow, hrest⟩ := h
    simp only [Row.height] at hdepth
    rw [Row.heads, List.map_cons, Row.trees, hr hrest (by omega)]
    congr 1
    cases depth with
    | zero =>
      have hnil : below = .nil := Row.height_eq_zero_iff.1 (by omega)
      subst hnil
      rfl
    | succ depth => rw [treeTo, hchildren, hb hbelow (by omega)]

theorem Lists.flatMap_nodesTo (h : f.Lists w) {depth : Nat} (hdepth : w.height ≤ depth + 1) :
    w.heads.flatMap (nodesTo depth f) = w.nodes := by
  induction w generalizing depth with
  | nil => rfl
  | cons i below rest hb hr =>
    obtain ⟨hchildren, hbelow, hrest⟩ := h
    simp only [Row.height] at hdepth
    rw [Row.heads, List.flatMap_cons, Row.nodes, hr hrest (by omega), ← List.cons_append]
    congr 1
    cases depth with
    | zero =>
      have hnil : below = .nil := Row.height_eq_zero_iff.1 (by omega)
      subst hnil
      rfl
    | succ depth => rw [nodesTo, hchildren, hb hbelow (by omega)]

/-- There are no more levels than nodes, and no more nodes in the row than in the forest. -/
theorem Holds.height_le (h : f.Holds w) : w.height ≤ f.size := by
  refine Nat.le_trans w.height_le_length ?_
  have hsub : w.nodes ⊆ List.range f.size := fun i hi => List.mem_range.2 (h.lt i hi)
  simpa using (List.Nodup.subperm h.nodup hsub).length_le

theorem Lists.tree_eq {below : Row} (h : f.Lists (.cons i below .nil))
    (hheight : (Row.cons i below .nil).height ≤ f.size + 1) :
    f.tree i = .node (f.label i) (below.trees f.label) := by
  have hmap := h.map_treeTo hheight
  simpa [Row.heads, Row.trees, tree] using hmap

theorem Holds.tree_eq {below : Row} (h : f.Holds (.cons i below .nil)) :
    f.tree i = .node (f.label i) (below.trees f.label) :=
  h.lists.tree_eq (Nat.le_succ_of_le h.height_le)

theorem Holds.nodesBelow_eq (h : f.Holds w) (hheads : w.heads = [i]) :
    f.nodesBelow i = w.nodes := by
  have hmap := h.lists.flatMap_nodesTo (Nat.le_succ_of_le h.height_le)
  rw [hheads] at hmap
  simpa [nodesBelow] using hmap

/-- The node `j` is `i` or below it. -/
def Within (f : Forest) : NodeId → NodeId → Prop :=
  Relation.ReflTransGen fun i c => c ∈ f.children i

/-- Where more is listed, more is below. -/
theorem Within.mono {g : Forest} (h : f.Within i j)
    (hchildren : ∀ a, ∀ b ∈ f.children a, b ∈ g.children a) : g.Within i j := by
  induction h with
  | refl => exact .refl
  | tail _ hb ih => exact ih.tail (hchildren _ _ hb)

theorem within_congr {g : Forest} (hchildren : ∀ j, g.children j = f.children j) :
    g.Within i j ↔ f.Within i j :=
  ⟨fun h => h.mono fun a _ hb => hchildren a ▸ hb,
    fun h => h.mono fun a _ hb => (hchildren a).symm ▸ hb⟩

/-- The nodes of a row are its heads and those below them. -/
theorem Lists.exists_within_iff (h : f.Lists w) :
    (∃ i ∈ w.heads, f.Within i j) ↔ j ∈ w.nodes := by
  induction w with
  | nil => simp [Row.heads, Row.nodes]
  | cons i below rest hb hr =>
    obtain ⟨hchildren, hbelow, hrest⟩ := h
    have hi : f.Within i j ↔ j = i ∨ j ∈ below.nodes := by
      rw [← hb hbelow, ← hchildren, Within, Relation.ReflTransGen.cases_head_iff, eq_comm]
    simp only [Row.heads, Row.nodes, List.mem_cons, List.mem_append, exists_eq_or_imp, hi, ← hr hrest,
      or_assoc]

theorem Lists.within_iff (h : f.Lists w) (hheads : w.heads = [i]) :
    f.Within i j ↔ j ∈ w.nodes := by
  rw [← h.exists_within_iff, hheads]
  simp

/-! ## Changes -/

/-- A row stays where the lists of its nodes do. -/
theorem Lists.congr {g : Forest} (h : f.Lists w)
    (hchildren : ∀ j ∈ w.nodes, g.children j = f.children j) : g.Lists w := by
  induction w with
  | nil => trivial
  | cons i below rest hb hr =>
    obtain ⟨hi, hbelow, hrest⟩ := h
    simp only [Row.nodes, List.mem_cons, List.mem_append] at hchildren
    exact ⟨(hchildren i (.inl rfl)).trans hi, hb hbelow fun j hj => hchildren j (.inr (.inl hj)),
      hr hrest fun j hj => hchildren j (.inr (.inr hj))⟩

theorem Lists.append {v : Row} (hv : f.Lists v) (hw : f.Lists w) : f.Lists (v.append w) := by
  induction v with
  | nil => exact hw
  | cons i below rest _ hr => exact ⟨hv.1, hv.2.1, hr hv.2.2⟩

/-- A new node has become the last one below `i`. -/
theorem Lists.addBelow (h : f.Lists w) (hi : i < f.size) {x : Label} :
    (f.addBelow i x).2.Lists (w.grow i f.size) := by
  have hnew : (f.addBelow i x).2.children f.size = [] := by
    rw [children_addBelow hi, if_neg (Nat.ne_of_lt hi), children_of_size_le (Nat.le_refl _)]
  have hleaf : (f.addBelow i x).2.Lists (Row.leaf f.size) := ⟨hnew, trivial, trivial⟩
  unfold Row.grow
  induction w with
  | nil => trivial
  | cons j below rest hb hr =>
    obtain ⟨hchildren, hbelow, hrest⟩ := h
    refine ⟨?_, ?_, hr hrest⟩
    · rw [children_addBelow hi, hchildren]
      by_cases hij : i = j
      · rw [if_pos hij, if_pos hij.symm, Row.heads_append, Row.heads_changeBelow]
        rfl
      · rw [if_neg hij, if_neg (Ne.symm hij), Row.heads_changeBelow]
    · split
      · exact (hb hbelow).append hleaf
      · exact hb hbelow

end ReportTree.Forest
