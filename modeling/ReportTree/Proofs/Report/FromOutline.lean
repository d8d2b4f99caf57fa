import ReportTree.Proofs.Forest.Exact
import ReportTree.Proofs.Forest.Spine
import ReportTree.Proofs.Report.Severity
import ReportTree.Report.Build

/-!
# The report of an outline

Lines of markup are drawn one after the other at the right edge of a tree. The tree lists a node for
every line, in the order of the lines and as deep as the line says, with nodes without a name where
a line leaves a gap. Levels and the marks to show children are settled by what is below a node.

* `Draws.mark`, `Draws.addBelow`, `Draws.raise`: the three steps in which lines are drawn.
* `Drawn.addLine`, `Drawn.addLines`: one line, and all of them.
* `Report.document_ofOutline`: the document of an outline.
-/

namespace ReportTree

/-! ## Trees -/

namespace Tree

mutual

/-- The labels of a tree with their depths, every node before what is below it. -/
def listing (depth : Nat) : Tree → List (Nat × Label)
  | .node x ts => (depth, x) :: listingAll (depth + 1) ts

/-- The labels of trees with their depths, one tree after the other. -/
def listingAll (depth : Nat) : List Tree → List (Nat × Label)
  | [] => []
  | t :: ts => listing depth t ++ listingAll depth ts

end

/-- The most severe level in a tree. -/
def severity (t : Tree) : Level := t.preorder.foldl (fun l x => l.highest x.level) .none

mutual

/-- The tree in which every node shows the most severe level of its tree, and is shown open if there
is something below it. -/
def settled : Tree → Tree
  | .node x ts =>
    .node { x with level := severity (.node x ts), expanded := !ts.isEmpty } (settledAll ts)

/-- Trees that are settled each by itself. -/
def settledAll : List Tree → List Tree
  | [] => []
  | t :: ts => settled t :: settledAll ts

end

theorem severity_atLeast_iff {t : Tree} {l : Level} :
    t.severity.atLeast l = true ↔ l = .none ∨ ∃ x ∈ t.preorder, x.level.atLeast l = true := by
  rw [severity, Document.foldl_highest_atLeast_iff, Level.none_atLeast_iff]

end Tree

namespace Markup

/-- The nodes that lines stand for, with their depths, where the node before them has the depth
`last`. A line that is deeper than below that node has nodes without a name before it, one for every
depth that is left out. -/
def rows (last : Nat) : List Line → List (Nat × Label)
  | [] => []
  | l :: ls =>
    (List.range' (last + 1) (l.depth - last)).map (fun d => (d, { name := [] })) ++
      (l.depth + 1, { name := l.name, icon := l.icon, level := l.level }) :: rows (l.depth + 1) ls

end Markup

namespace Forest

theorem Row.listingAll_trees (label : NodeId → Label) (w : Row) (depth : Nat) :
    Tree.listingAll depth (w.trees label) = (w.listing depth).map fun p => (p.1, label p.2) := by
  induction w generalizing depth with
  | nil => rfl
  | cons i below rest hb hr =>
    rw [trees, Tree.listingAll, Tree.listing, hb, hr, listing, List.map_cons, List.map_append,
      List.cons_append]

/-! ## Steps -/

/-- The forest draws what `own` tells for the nodes of a single tree, and `place` is where the way
down has come to. A node is marked if there is something below it or it is the place, but for the
root. -/
structure Draws (f : Forest) (own : NodeId → Label) (place : NodeId) : Prop where
  coherent : f.Coherent
  listed : f.Listed
  parent_root : f.parent 0 = none
  label_eq : ∀ j,
    f.label j = { own j with level := f.level j, expanded := (f.label j).expanded }
  expanded_iff : ∀ j, (f.label j).expanded = true ↔ j ≠ 0 ∧ (f.children j ≠ [] ∨ j = place)
  exact : f.Exact fun j => (own j).level

variable {f : Forest} {own : NodeId → Label} {place c t : NodeId} {x : Label} {l : Level}

theorem Draws.child_ne_root (h : f.Draws own place) (hc : c ∈ f.children t) : c ≠ 0 := by
  rintro rfl
  exact h.coherent.not_mem_children h.parent_root hc

/-- The way goes on to a node, which is marked. -/
theorem Draws.mark (h : f.Draws own place) (hplace : place = 0 ∨ f.children place ≠ [])
    (hc : c < f.size) (hroot : c ≠ 0) : (f.expand c).Draws own c where
  coherent := h.coherent.modifyLabel _
  listed := h.listed.congr (fun _ => parent_modifyLabel) fun _ => children_modifyLabel
  parent_root := parent_modifyLabel.trans h.parent_root
  label_eq j := by
    have hlevel : (f.expand c).level j = f.level j := level_modifyLabel fun _ => rfl
    rw [hlevel, expand, label_modifyLabel]
    split
    · rw [h.label_eq j]
    · exact h.label_eq j
  expanded_iff j := by
    rw [expand, label_modifyLabel, children_modifyLabel]
    by_cases hcj : c = j
    · subst hcj
      simp [hc, hroot]
    · rw [if_neg fun h => hcj h.1, h.expanded_iff]
      refine and_congr_right fun hj => or_congr_right' fun hnil => ?_
      rw [ne_eq, not_not] at hnil
      constructor
      · rintro rfl
        exact absurd hnil (hplace.resolve_left hj)
      · exact fun h => absurd h.symm hcj
  exact := h.exact.congr (fun _ => level_modifyLabel fun _ => rfl) fun _ => children_modifyLabel

/-- A node is made at the place, and the next way down starts at the root. -/
theorem Draws.addBelow (h : f.Draws own place) (hplace : place < f.size) (hlevel : x.level = .none)
    (hexpanded : x.expanded = false) :
    (f.addBelow place x).2.Draws (Function.update own f.size x) 0 where
  coherent := h.coherent.addBelow hplace
  listed := h.listed.addBelow hplace
  parent_root := by
    rw [parent_addBelow, if_neg (Nat.ne_of_lt (Nat.lt_of_le_of_lt (Nat.zero_le _) hplace))]
    exact h.parent_root
  label_eq j := by
    rw [label_addBelow, level_addBelow]
    by_cases hj : j = f.size
    · subst hj
      rw [if_pos rfl, if_pos rfl, Function.update_self]
    · rw [if_neg hj, if_neg hj, Function.update_of_ne hj]
      exact h.label_eq j
  expanded_iff j := by
    rw [label_addBelow, children_addBelow hplace]
    by_cases hj : j = f.size
    · subst hj
      rw [if_pos rfl, hexpanded, if_neg (Nat.ne_of_lt hplace), children_of_size_le (Nat.le_refl _)]
      simp
    · rw [if_neg hj, h.expanded_iff]
      split
      · next hp => simp [hp]
      · next hp => simp +contextual [Ne.symm hp]
  exact := by
    have hown : (fun j => (Function.update own f.size x j).level) = fun j => (own j).level := by
      funext j
      by_cases hj : j = f.size
      · subst hj
        rw [Function.update_self, hlevel, h.exact.own_eq_none (Nat.le_refl _)]
      · rw [Function.update_of_ne hj]
    rw [hown]
    exact h.exact.addBelow hplace hlevel

/-- A node gets a level. -/
theorem Draws.raise (h : f.Draws own place) (hc : c < f.size)
    (hl : l.atLeast (f.level c) = true) :
    (f.raise c l).Draws (Function.update own c { own c with level := l }) place where
  coherent := h.coherent.raise l
  listed := h.listed.congr (fun _ => parent_raise) fun _ => children_raise
  parent_root := parent_raise.trans h.parent_root
  label_eq j := by
    rw [label_raise, h.label_eq j]
    by_cases hj : j = c
    · subst hj
      rw [Function.update_self]
    · rw [Function.update_of_ne hj]
  expanded_iff j := by
    rw [label_raise, children_raise]
    exact h.expanded_iff j
  exact := by
    have hown : (fun j => (Function.update own c { own c with level := l } j).level) =
        Function.update (fun j => (own j).level) c l := by
      funext j
      by_cases hj : j = c
      · subst hj
        rw [Function.update_self, Function.update_self]
      · rw [Function.update_of_ne hj, Function.update_of_ne hj]
    rw [hown]
    exact h.exact.raise h.coherent h.listed hc hl

/-! ## Lines -/

/-- The forest shows a row of nodes as `rows`, the last of which has the depth `last`. -/
structure Drawn (f : Forest) (w : Row) (own : NodeId → Label) (last : Nat)
    (rows : List (Nat × Label)) : Prop where
  grown : f.Grown 0 w
  heads_eq : w.heads = [0]
  length_spine : w.spine.length = last + 1
  rows_eq : (w.listing 0).map (fun p => (p.1, own p.2)) = rows

variable {w : Row} {k last : Nat} {rows : List (Nat × Label)}

theorem Drawn.spine_zero (h : f.Drawn w own last rows) : w.spine[0]? = some 0 := by
  rw [← Row.getLast?_heads, h.heads_eq]
  rfl

theorem Drawn.relabel (h : f.Drawn w own last rows) {g : Forest} (hsize : g.size = f.size)
    (hchildren : ∀ j, g.children j = f.children j) : g.Drawn w own last rows :=
  { h with grown := h.grown.congr hsize hchildren }

/-- A node that is made below place `k` of the right edge is the last one then. -/
theorem Drawn.addBelow (h : f.Drawn w own last rows) (ht : w.spine[k]? = some t) (y : Label) :
    (f.addBelow t x).2.Drawn (w.grow t f.size) (Function.update own f.size y) (k + 1)
      (rows ++ [(k + 1, y)]) where
  grown := h.grown.addBelow ht
  heads_eq := (Row.heads_changeBelow w).trans h.heads_eq
  length_spine := by
    have hlt := (List.getElem?_eq_some_iff.1 ht).1
    rw [(Row.growsAt_grow h.grown.nodup ht).spine, List.length_append, List.length_take,
      List.length_singleton]
    omega
  rows_eq := by
    have hold : ∀ p ∈ w.listing 0, (p.1, Function.update own f.size y p.2) = (p.1, own p.2) := by
      intro p hp
      have hmem : p.2 ∈ w.nodes := Row.map_snd_listing 0 w ▸ List.mem_map_of_mem hp
      rw [Function.update_of_ne (Nat.ne_of_lt (h.grown.mem_iff.1 hmem).2)]
    rw [(Row.growsAt_grow h.grown.nodup ht).listing, List.map_append, List.map_congr_left hold,
      h.rows_eq, List.map_singleton, Function.update_self, Nat.zero_add]

/-- What has been drawn when the way down has come to place `k`: nodes without a name for all
depths after the last one. -/
def Opened (last : Nat) (rows : List (Nat × Label)) (k : Nat) (f : Forest) (w : Row) : Prop :=
  ∃ own place, w.spine[k]? = some place ∧ f.Draws own place ∧
    f.Drawn w own (max last k)
      (rows ++ (List.range' (last + 1) (k - last)).map fun d => (d, { name := [] }))

theorem Opened.mark (hw : f.Grown 0 w) (h : Opened last rows k f w) (hc : w.spine[k + 1]? = some c) :
    Opened last rows (k + 1) (f.expand c) w := by
  obtain ⟨own, place, hplace, hdraws, hdrawn⟩ := h
  have hmem : c ∈ f.children place :=
    List.mem_of_getLast? ((hw.lists.getLast?_children hplace).trans hc)
  have hlast : k + 1 ≤ max last k := by
    have hlt := (List.getElem?_eq_some_iff.1 hc).1
    have hlength := hdrawn.length_spine
    omega
  refine ⟨own, c, hc, ?_, ?_⟩
  · exact hdraws.mark (.inr (List.ne_nil_of_mem hmem)) (hdraws.coherent.child_lt hmem)
      (hdraws.child_ne_root hmem)
  · rw [show max last (k + 1) = max last k by omega, show k + 1 - last = k - last by omega]
    exact hdrawn.relabel size_modifyLabel fun _ => children_modifyLabel

theorem Opened.make (h : Opened last rows k f w) (ht : w.spine[k]? = some t)
    (hlength : w.spine.length = k + 1) :
    Opened last rows (k + 1) ((f.addBelow t { name := [] }).2.expand f.size) (w.grow t f.size) := by
  obtain ⟨own, place, hplace, hdraws, hdrawn⟩ := h
  obtain rfl : place = t := Option.some.inj (hplace.symm.trans ht)
  have hlt : place < f.size := (hdrawn.grown.mem_of_spine ht).2
  have hlast : max last k = k := by
    have := hdrawn.length_spine
    omega
  have hgrown := hdrawn.addBelow (x := { name := [] }) ht { name := [] }
  refine ⟨Function.update own f.size { name := [] }, f.size, ?_, ?_, ?_⟩
  · exact Row.getElem?_spine_grow hdrawn.grown.nodup ht
  · refine (hdraws.addBelow hlt rfl rfl).mark (.inl rfl) lt_size_addBelow ?_
    exact Nat.ne_of_gt (Nat.lt_of_le_of_lt (Nat.zero_le _) hlt)
  · rw [show max last (k + 1) = k + 1 by omega, show k + 1 - last = (k - last) + 1 by omega,
      List.range'_concat, List.map_append, ← List.append_assoc,
      show last + 1 + 1 * (k - last) = k + 1 by omega]
    exact hgrown.relabel size_modifyLabel fun _ => children_modifyLabel

/-- One line of markup. -/
theorem Drawn.addLine (h : f.Drawn w own last rows) (hdraws : f.Draws own 0)
    (line : Markup.Line) :
    ∃ w' own', (f.addLine 0 line).2.Drawn w' own' (line.depth + 1)
        (rows ++ Markup.rows last [line]) ∧
      (f.addLine 0 line).2.Draws own' 0 := by
  have hstart : Opened last rows 0 f w := by
    refine ⟨own, 0, h.spine_zero, hdraws, ?_⟩
    rw [Nat.max_zero, Nat.zero_sub, List.range'_zero, List.map_nil, List.append_nil]
    exact h
  obtain ⟨v, hv, hplace, hopened⟩ := h.grown.openDown (fun hw hp hc => hp.mark hw hc)
    (fun _ hp ht hl => hp.make ht hl) hstart h.spine_zero line.depth
  rw [Nat.zero_add] at hplace hopened
  rw [Forest.addLine_eq]
  generalize openDown line.depth 0 f = r at *
  obtain ⟨t, g⟩ := r
  obtain ⟨ownt, t', ht', hdrawst, hdrawnt⟩ := hopened
  obtain rfl : t' = t := Option.some.inj (ht'.symm.trans hplace)
  have ht : t' < g.size := (hv.mem_of_spine hplace).2
  have hmade := hdrawst.addBelow (x := { name := line.name, icon := line.icon }) ht rfl rfl
  have hlevel : line.level.atLeast
      ((g.addBelow t' { name := line.name, icon := line.icon }).2.level g.size) = true := by
    rw [level_addBelow, if_pos rfl]
    exact Level.atLeast_none _
  have hraised := hmade.raise lt_size_addBelow hlevel
  rw [Function.update_self, Function.update_idem] at hraised
  refine ⟨v.grow t' g.size, _, ?_, hraised⟩
  have hadded := hdrawnt.addBelow (x := { name := line.name, icon := line.icon }) hplace
    { name := line.name, icon := line.icon, level := line.level }
  rw [Markup.rows, Markup.rows, ← List.append_assoc]
  exact hadded.relabel (size_raise ..) fun _ => children_raise

/-- All lines, one after the other. -/
theorem Drawn.addLines (h : f.Drawn w own last rows) (hdraws : f.Draws own 0)
    (lines : List Markup.Line) :
    ∃ w' own' last', (lines.foldl (fun f line => (f.addLine 0 line).2) f).Drawn w' own' last'
        (rows ++ Markup.rows last lines) ∧
      (lines.foldl (fun f line => (f.addLine 0 line).2) f).Draws own' 0 := by
  induction lines generalizing f w own last rows with
  | nil => exact ⟨w, own, last, by rwa [Markup.rows, List.append_nil], hdraws⟩
  | cons line lines ih =>
    obtain ⟨v, ownv, hdrawn, hdrawsv⟩ := h.addLine hdraws line
    have hrest := ih hdrawn hdrawsv
    rw [List.foldl_cons]
    simpa only [Markup.rows, List.append_assoc, List.cons_append, List.nil_append] using hrest

/-- A single root without anything below it. -/
theorem drawn_addRoot (name : Text) :
    (empty.addRoot name).2.Drawn (.leaf 0) (empty.addRoot name).2.label 0
        [(0, { name := name })] ∧
      (empty.addRoot name).2.Draws (empty.addRoot name).2.label 0 := by
  have hsize : (empty.addRoot name).2.size = 1 := size_addRoot
  have hlabel (j : NodeId) :
      (empty.addRoot name).2.label j = if j = 0 then { name := name } else default :=
    label_addRoot
  have hchildren (j : NodeId) : (empty.addRoot name).2.children j = [] :=
    children_addRoot.trans (children_of_size_le (Nat.zero_le _))
  have hparent (j : NodeId) : (empty.addRoot name).2.parent j = none :=
    parent_addRoot.trans (parent_of_size_le (Nat.zero_le _))
  constructor
  · refine ⟨⟨⟨hchildren 0, trivial, trivial⟩, ?_, Nat.zero_le _⟩, rfl, rfl, ?_⟩
    · rw [hsize]
      rfl
    · simp [Row.leaf, Row.listing, hlabel]
  · refine ⟨coherent_empty.addRoot name, fun i p h => ?_, hparent 0, fun j => rfl, fun j => ?_,
      exact_level_of_children_eq_nil hchildren⟩
    · rw [hparent] at h
      cases h
    · rw [hlabel, hchildren]
      split
      · next hj => simp [hj]
      · next hj =>
        have hplain : (default : Label).expanded = false := rfl
        simp [hj, hplain]

/-! ## What is seen -/

/-- The level of a node is the severity of its tree as the lines tell it. -/
theorem Draws.level_eq {below : Row} (h : f.Draws own place)
    (hlists : f.Lists (.cons c below .nil)) :
    f.level c = Tree.severity (.node (own c) (below.trees own)) := by
  refine Level.eq_of_atLeast_iff fun l => ?_
  have hpreorder := Row.preorderAll_trees own (.cons c below .nil)
  rw [Row.trees, Row.trees, Tree.preorderAll, Tree.preorderAll, List.append_nil] at hpreorder
  rw [h.exact c l, Tree.severity_atLeast_iff, hpreorder]
  simp only [List.mem_map, exists_exists_and_eq_and, hlists.within_iff rfl]
  constructor
  · exact .inr
  · rintro (rfl | hl)
    · exact ⟨c, List.mem_cons_self, Level.atLeast_none _⟩
    · exact hl

theorem Draws.trees_eq (h : f.Draws own 0) (hlists : f.Lists w) (hroot : 0 ∉ w.nodes) :
    w.trees f.label = Tree.settledAll (w.trees own) := by
  induction w with
  | nil => rfl
  | cons i below rest hb hr =>
    have hsingle : f.Lists (.cons i below .nil) := ⟨hlists.1, hlists.2.1, trivial⟩
    have hlevel := h.level_eq hsingle
    obtain ⟨hchildren, hbelow, hrest⟩ := hlists
    simp only [Row.nodes, List.mem_cons, List.mem_append, not_or] at hroot
    have hexpanded : (f.label i).expanded = !(below.trees own).isEmpty := by
      rw [Bool.eq_iff_iff, h.expanded_iff, hchildren]
      cases below <;> simp [Row.heads, Row.trees, Ne.symm hroot.1]
    rw [Row.trees, Row.trees, Tree.settledAll, Tree.settled, hb hbelow hroot.2.1,
      hr hrest hroot.2.2, h.label_eq i, hlevel, hexpanded]

/-- The tree of what has been drawn. The root is never marked. -/
theorem Drawn.tree_eq (h : f.Drawn w own last rows) (hdraws : f.Draws own 0) :
    ∃ t : Tree, t.listing 0 = rows ∧
      f.tree 0 = .node { t.settled.label with expanded := false } t.settled.children := by
  obtain ⟨below, rfl⟩ := Row.exists_below_of_heads_eq h.heads_eq
  refine ⟨.node (own 0) (below.trees own), ?_, ?_⟩
  · have hlisting := Row.listingAll_trees own (.cons 0 below .nil) 0
    rw [h.rows_eq] at hlisting
    simpa [Row.trees, Tree.listingAll] using hlisting
  · have hroot : 0 ∉ below.nodes := (List.nodup_cons.1 h.grown.nodup).1 ∘ List.mem_append_left _
    have hlevel := hdraws.level_eq h.grown.lists
    have hexpanded : (f.label 0).expanded = false := by
      rw [Bool.eq_false_iff, ne_eq, hdraws.expanded_iff]
      exact fun h => h.1 rfl
    rw [h.grown.holds.tree_eq, hdraws.trees_eq h.grown.lists.2.1 hroot, hdraws.label_eq 0, hlevel,
      hexpanded]
    rfl

end Forest

/-! ## The report -/

namespace Report

/-- The document of an outline has one tab. Its tree is that of some `t`, which lists the root and
then a node for every line that is not blank, with its depth and what the line says, and nodes
without a name where a line leaves a gap; in the tree that is shown, levels and marks are settled,
but the root is never marked. -/
theorem document_ofOutline (markup title tab mainText : Text) :
    ∃ t : Tree,
      t.listing 0 = (0, { name := tab }) ::
        Markup.rows 0 ((markup.lines.filter (!·.isBlank)).map Markup.Line.read) ∧
      (ofOutline markup title tab mainText).document =
        { title := title
          mainText := mainText
          tabs := [{ tree := .node { t.settled.label with expanded := false }
                       t.settled.children }] } := by
  obtain ⟨hstart, hdraws⟩ := Forest.drawn_addRoot tab
  obtain ⟨w, own, last, hdrawn, hdraws⟩ :=
    hstart.addLines hdraws ((markup.lines.filter (!·.isBlank)).map Markup.Line.read)
  obtain ⟨t, ht, htree⟩ := hdrawn.tree_eq hdraws
  refine ⟨t, ht, ?_⟩
  rw [List.foldl_map] at htree
  rw [← htree]
  rfl

/-- Two levels are left out between the first line and the second. -/
example : Markup.rows 0 (["Build", "\t\t\t! Compile", "\tTest"].map fun s => .read (Text.ofString s)) =
    [(1, { name := "Build" }), (2, { name := [] }), (3, { name := [] }),
      (4, { name := "Compile", level := .warn }), (2, { name := "Test" })] := by
  decide

end Report

end ReportTree
