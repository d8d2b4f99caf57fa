import ReportTree.Forest.Outline
import ReportTree.Proofs.Forest.Row

/-!
# The right edge of a row

Outline markup makes nodes at the right edge of a tree only, where the last children are. So the
nodes of the tree stand in it in the order in which they were made.

* `Row.growsAt_grow`: a node that is made below the right edge comes last.
* `Holds.openDown`: what is kept by every step down along last children is kept by the way down.
* `Grown.addBelow`: the nodes of a row stay in the order in which they were made.
-/

namespace ReportTree.Forest

namespace Row

/-- The nodes on the right edge of a row, from the top down. -/
def spine : Row → List NodeId
  | nil => []
  | cons i below nil => i :: below.spine
  | cons _ _ (cons j below rest) => (cons j below rest).spine

/-- The nodes of a row with their depths, every node before what is below it. -/
def listing (depth : Nat) : Row → List (Nat × NodeId)
  | nil => []
  | cons i below rest => (depth, i) :: (below.listing (depth + 1) ++ rest.listing depth)

variable {w rest : Row} {t n : NodeId} {k : Nat}

theorem spine_cons (i : NodeId) (below : Row) (h : rest ≠ nil) :
    (cons i below rest).spine = rest.spine := by
  cases rest with
  | nil => exact absurd rfl h
  | cons j below rest => rw [spine]

theorem map_snd_listing (depth : Nat) (w : Row) : (w.listing depth).map Prod.snd = w.nodes := by
  induction w generalizing depth with
  | nil => rfl
  | cons i below rest hb hr =>
    rw [listing, List.map_cons, List.map_append, hb, hr, nodes]

theorem listing_append (depth : Nat) (v w : Row) :
    (v.append w).listing depth = v.listing depth ++ w.listing depth := by
  induction v with
  | nil => rfl
  | cons i below rest _ hr =>
    rw [append, listing, listing, hr, List.cons_append, List.append_assoc]

theorem append_leaf_ne_nil (v : Row) (n : NodeId) : v.append (leaf n) ≠ nil := by
  cases v <;> simp [append, leaf]

theorem spine_append_leaf (v : Row) (n : NodeId) : (v.append (leaf n)).spine = [n] := by
  induction v with
  | nil => rfl
  | cons i below rest _ hr => rw [append, spine_cons i below (append_leaf_ne_nil rest n), hr]

theorem mem_nodes_of_mem_spine (h : t ∈ w.spine) : t ∈ w.nodes := by
  induction w with
  | nil => cases h
  | cons i below rest hb hr =>
    by_cases hrest : rest = nil
    · subst hrest
      rw [spine, List.mem_cons] at h
      rw [nodes, List.mem_cons, List.mem_append]
      exact h.imp id fun h => .inl (hb h)
    · rw [spine_cons i below hrest] at h
      exact List.mem_cons_of_mem _ (List.mem_append_right _ (hr h))

/-- The last of the heads is the top of the right edge. -/
theorem getLast?_heads (w : Row) : w.heads.getLast? = w.spine[0]? := by
  induction w with
  | nil => rfl
  | cons i below rest _ hr =>
    by_cases hrest : rest = nil
    · subst hrest
      rfl
    · have hheads : rest.heads ≠ [] := by cases rest <;> simp_all [heads]
      rw [heads, List.getLast?_cons_of_ne_nil hheads, hr, spine_cons i below hrest]

/-- The second row is the first one with the node `n` below the node at place `k` of the right
edge, as the last one there. -/
inductive GrowsAt (n : NodeId) : Nat → Row → Row → Prop
  | here (i : NodeId) (below : Row) :
      GrowsAt n 0 (cons i below nil) (cons i (below.append (leaf n)) nil)
  | down {k : Nat} (i : NodeId) {below below' : Row} (h : GrowsAt n k below below') :
      GrowsAt n (k + 1) (cons i below nil) (cons i below' nil)
  | right {k : Nat} (i : NodeId) (below : Row) {rest rest' : Row} (hrest : rest ≠ nil)
      (h : GrowsAt n k rest rest') : GrowsAt n k (cons i below rest) (cons i below rest')

/-- In a row that has no node twice, nothing but the right edge changes. -/
theorem growsAt_grow (hw : w.nodes.Nodup) (ht : w.spine[k]? = some t) :
    GrowsAt n k w (w.grow t n) := by
  induction w generalizing k with
  | nil => cases ht
  | cons i below rest hb hr =>
    rw [nodes, List.nodup_cons, List.nodup_append, List.mem_append, not_or] at hw
    obtain ⟨⟨hibelow, hirest⟩, hbelow, hrestnodup, hdisjoint⟩ := hw
    rw [grow, changeBelow]
    by_cases hrest : rest = nil
    · subst hrest
      rw [spine] at ht
      cases k with
      | zero =>
        cases ht
        rw [if_pos rfl, changeBelow_of_not_mem hibelow]
        exact .here t below
      | succ k =>
        have hmem : t ∈ below.nodes := mem_nodes_of_mem_spine (List.mem_of_getElem? ht)
        rw [if_neg fun h : i = t => hibelow (h ▸ hmem)]
        exact .down i (hb hbelow ht)
    · rw [spine_cons i below hrest] at ht
      have hmem : t ∈ rest.nodes := mem_nodes_of_mem_spine (List.mem_of_getElem? ht)
      have hnot : t ∉ below.nodes := fun h => hdisjoint t h t hmem rfl
      rw [if_neg fun h : i = t => hirest (h ▸ hmem), changeBelow_of_not_mem hnot]
      exact .right i below hrest (hr hrestnodup ht)

theorem GrowsAt.listing {w' : Row} (h : GrowsAt n k w w') (depth : Nat) :
    w'.listing depth = w.listing depth ++ [(depth + k + 1, n)] := by
  induction h generalizing depth with
  | here i below =>
    simp only [Row.listing, listing_append, leaf, List.append_nil, List.cons_append, Nat.add_zero]
  | @down k i below below' _ ih =>
    simp only [Row.listing, ih, List.append_nil, List.cons_append, Nat.add_right_comm depth 1 k,
      Nat.add_assoc]
  | right i below _ _ ih =>
    simp only [Row.listing, ih, List.cons_append, List.append_assoc]

theorem GrowsAt.spine {w' : Row} (h : GrowsAt n k w w') :
    w'.spine = w.spine.take (k + 1) ++ [n] := by
  induction h with
  | here i below => simp only [Row.spine, spine_append_leaf, List.take_succ_cons, List.take_zero,
      List.cons_append, List.nil_append]
  | down i _ ih => simp only [Row.spine, ih, List.take_succ_cons, List.cons_append]
  | @right k i below rest rest' hrest h ih =>
    have hrest' : rest' ≠ nil := by cases h <;> simp
    rw [spine_cons i below hrest, spine_cons i below hrest', ih]

/-- It comes last of all nodes. -/
theorem nodes_grow (hw : w.nodes.Nodup) (ht : w.spine[k]? = some t) :
    (w.grow t n).nodes = w.nodes ++ [n] := by
  rw [← map_snd_listing 0, (growsAt_grow hw ht).listing, List.map_append, map_snd_listing]
  rfl

/-- The node is the last one of the right edge then. -/
theorem getElem?_spine_grow (hw : w.nodes.Nodup) (ht : w.spine[k]? = some t) :
    (w.grow t n).spine[k + 1]? = some n := by
  have hlt := (List.getElem?_eq_some_iff.1 ht).1
  have hlength : (w.spine.take (k + 1)).length = k + 1 := by
    rw [List.length_take, Nat.min_eq_left hlt]
  rw [(growsAt_grow hw ht).spine, List.getElem?_append_right (Nat.le_of_eq hlength), hlength,
    Nat.sub_self]
  rfl

end Row

variable {f g : Forest} {w : Row} {t i : NodeId} {first k : Nat} {x : Label}

/-- The last child of a node on the right edge is the next one there. -/
theorem Lists.getLast?_children (h : f.Lists w) (ht : w.spine[k]? = some t) :
    (f.children t).getLast? = w.spine[k + 1]? := by
  induction w generalizing k with
  | nil => cases ht
  | cons i below rest hb hr =>
    obtain ⟨hchildren, hbelow, hrestlists⟩ := h
    by_cases hrest : rest = .nil
    · subst hrest
      rw [Row.spine] at ht ⊢
      cases k with
      | zero =>
        cases ht
        rw [hchildren, Row.getLast?_heads]
        rfl
      | succ k => exact hb hbelow ht
    · rw [Row.spine_cons i below hrest] at ht ⊢
      exact hr hrestlists ht

theorem Holds.mem_of_spine (ht : w.spine[k]? = some t) : t ∈ w.nodes :=
  Row.mem_nodes_of_mem_spine (List.mem_of_getElem? ht)

/-- Only the lists of children count. -/
theorem Holds.congr (h : f.Holds w) (hsize : g.size = f.size)
    (hchildren : ∀ j, g.children j = f.children j) : g.Holds w where
  lists := h.lists.congr fun j _ => hchildren j
  nodup := h.nodup
  lt i hi := hsize ▸ h.lt i hi

/-- A new node below the right edge is the last one of the row. -/
theorem Holds.addBelow (h : f.Holds w) (ht : w.spine[k]? = some t) :
    (f.addBelow t x).2.Holds (w.grow t f.size) where
  lists := h.lists.addBelow (h.lt t (mem_of_spine ht))
  nodup := by
    rw [Row.nodes_grow h.nodup ht]
    refine h.nodup.append (List.nodup_singleton _) fun i hi hnew => ?_
    exact Nat.ne_of_lt (h.lt i hi) (List.mem_singleton.1 hnew)
  lt i hi := by
    rw [Row.nodes_grow h.nodup ht, List.mem_append, List.mem_singleton] at hi
    rw [size_addBelow]
    rcases hi with hi | rfl
    · exact Nat.lt_succ_of_lt (h.lt i hi)
    · exact Nat.lt_succ_self _

/-! ## The way down -/

/-- A property of the place on the right edge, of the forest and of the row is kept by the way down
along last children, if it is kept where the last child is marked and where one is made. -/
theorem Holds.openDown {P : Nat → Forest → Row → Prop}
    (hmark : ∀ {k f w c}, f.Holds w → P k f w → w.spine[k + 1]? = some c →
      P (k + 1) (f.expand c) w)
    (hmake : ∀ {k f w t}, f.Holds w → P k f w → w.spine[k]? = some t →
      w.spine.length = k + 1 →
      P (k + 1) ((f.addBelow t { name := [] }).2.expand f.size) (w.grow t f.size))
    (h : f.Holds w) (hp : P k f w) (ht : w.spine[k]? = some t) (depth : Nat) :
    ∃ w' : Row, (openDown depth t f).2.Holds w' ∧
      w'.spine[k + depth]? = some (openDown depth t f).1 ∧
      P (k + depth) (openDown depth t f).2 w' := by
  induction depth generalizing k f w t with
  | zero => exact ⟨w, h, ht, hp⟩
  | succ depth ih =>
    have hlast := h.lists.getLast?_children ht
    rw [Forest.openDown, openLastChild, hlast, Nat.add_comm depth, ← Nat.add_assoc]
    cases hnext : w.spine[k + 1]? with
    | some c =>
      have hc : (f.expand c).Holds w := h.congr size_modifyLabel fun _ => children_modifyLabel
      exact ih hc (hmark h hp hnext) hnext
    | none =>
      have hlength : w.spine.length = k + 1 := by
        have hlt := (List.getElem?_eq_some_iff.1 ht).1
        have hle := List.getElem?_eq_none_iff.1 hnext
        omega
      have hc : ((f.addBelow t { name := [] }).2.expand f.size).Holds (w.grow t f.size) :=
        (h.addBelow ht).congr size_modifyLabel fun _ => children_modifyLabel
      exact ih hc (hmake h hp ht hlength) (Row.getElem?_spine_grow h.nodup ht)

/-! ## Rows in the order of their making -/

/-- The forest has the row, whose nodes are those made since `first`, in the order in which they
were made. -/
structure Grown (f : Forest) (first : Nat) (w : Row) : Prop where
  lists : f.Lists w
  nodes_eq : w.nodes = List.range' first (f.size - first)
  first_le : first ≤ f.size

theorem Grown.nodup (h : f.Grown first w) : w.nodes.Nodup := by
  rw [h.nodes_eq]
  exact List.nodup_range'

theorem Grown.mem_iff (h : f.Grown first w) : i ∈ w.nodes ↔ first ≤ i ∧ i < f.size := by
  rw [h.nodes_eq, List.mem_range'_1, Nat.add_sub_cancel' h.first_le]

theorem Grown.holds (h : f.Grown first w) : f.Holds w :=
  ⟨h.lists, h.nodup, fun _ hi => (h.mem_iff.1 hi).2⟩

theorem Grown.mem_of_spine (h : f.Grown first w) (ht : w.spine[k]? = some t) :
    first ≤ t ∧ t < f.size :=
  h.mem_iff.1 (Row.mem_nodes_of_mem_spine (List.mem_of_getElem? ht))

/-- Only the lists of children count. -/
theorem Grown.congr (h : f.Grown first w) (hsize : g.size = f.size)
    (hchildren : ∀ j, g.children j = f.children j) : g.Grown first w where
  lists := h.lists.congr fun j _ => hchildren j
  nodes_eq := hsize ▸ h.nodes_eq
  first_le := hsize ▸ h.first_le

/-- A new node below the right edge is the last one made. -/
theorem Grown.addBelow (h : f.Grown first w) (ht : w.spine[k]? = some t) :
    (f.addBelow t x).2.Grown first (w.grow t f.size) where
  lists := (h.holds.addBelow ht).lists
  nodes_eq := by
    have hlast : first + 1 * (f.size - first) = f.size := by
      have := h.first_le
      omega
    rw [size_addBelow, Nat.succ_sub h.first_le, List.range'_concat, ← h.nodes_eq, hlast,
      Row.nodes_grow h.nodup ht]
  first_le := by
    rw [size_addBelow]
    exact Nat.le_succ_of_le h.first_le

/-- The way down along last children keeps the order. -/
theorem Grown.openDown {P : Nat → Forest → Row → Prop}
    (hmark : ∀ {k f w c}, f.Grown first w → P k f w → w.spine[k + 1]? = some c →
      P (k + 1) (f.expand c) w)
    (hmake : ∀ {k f w t}, f.Grown first w → P k f w → w.spine[k]? = some t →
      w.spine.length = k + 1 →
      P (k + 1) ((f.addBelow t { name := [] }).2.expand f.size) (w.grow t f.size))
    (h : f.Grown first w) (hp : P k f w) (ht : w.spine[k]? = some t) (depth : Nat) :
    ∃ w' : Row, (openDown depth t f).2.Grown first w' ∧
      w'.spine[k + depth]? = some (openDown depth t f).1 ∧
      P (k + depth) (openDown depth t f).2 w' := by
  obtain ⟨w', -, hplace, hgrown, hp'⟩ := h.holds.openDown
    (P := fun k f w => f.Grown first w ∧ P k f w)
    (fun _ hp hc => ⟨hp.1.congr size_modifyLabel fun _ => children_modifyLabel,
      hmark hp.1 hp.2 hc⟩)
    (fun _ hp ht hlength => ⟨(hp.1.addBelow ht).congr size_modifyLabel fun _ =>
      children_modifyLabel, hmake hp.1 hp.2 ht hlength⟩) ⟨h, hp⟩ ht depth
  exact ⟨w', hgrown, hplace, hp'⟩

end ReportTree.Forest
