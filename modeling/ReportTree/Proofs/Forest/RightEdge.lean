import ReportTree.Proofs.Forest.Chain
import ReportTree.Proofs.Forest.Lineage
import ReportTree.Proofs.Forest.Spine

/-!
# The effect of adding a line

A line of markup goes down the right edge of the tree below a node, one last child for every tab, and
makes nodes without a name where the edge is too short. All that it goes through is shown open. Its
own node comes after all nodes of the tree.

* `RightEdge`: the last child of a node, the last child of that one, and so on.
* `Stretched`: what the way down has come to after some of the tabs.
* `addChild_effect`: what adding a line comes to, in every tree.
-/

namespace ReportTree.Forest

/-- The nodes on the right edge of the tree below a node, from the top down. -/
inductive RightEdge (f : Forest) : NodeId → List NodeId → Prop
  | stop {i : NodeId} (h : f.children i = []) : RightEdge f i []
  | down {i c : NodeId} {cs : List NodeId} (h : (f.children i).getLast? = some c)
      (hc : RightEdge f c cs) : RightEdge f i (c :: cs)

/-- The forest `g`, and the row in it that was `w`, where the way down from `i` has gone along `k`
last children: `edge` is what was there of them, and all others are new. -/
structure Stretched (f : Forest) (w : Row) (i : NodeId) (edge : List NodeId) (k : Nat) (g : Forest)
    (v : Row) : Prop where
  spine_eq : v.spine = i :: (edge ++ List.range' f.size (k - edge.length))
  heads_eq : v.heads = w.heads
  nodes_eq : v.nodes = w.nodes ++ List.range' f.size (k - edge.length)
  chained : ∀ d, (i :: edge.take k).getLast? = some d → f.Chained d (k - edge.length) g
  label_eq : ∀ j, g.label j =
    if j ∈ edge.take k ++ List.range' f.size (k - edge.length) then
      { f.label j with expanded := true } else f.label j

variable {f g h : Forest} {w v : Row} {i c d t : NodeId} {edge cs : List NodeId} {k : Nat}

theorem RightEdge.unique (h : f.RightEdge i edge) (h' : f.RightEdge i cs) : edge = cs := by
  induction h generalizing cs with
  | stop h =>
    cases h' with
    | stop => rfl
    | down h' => simp [h] at h'
  | down h _ ih =>
    cases h' with
    | stop h' => simp [h'] at h
    | down h' hc' =>
      rw [h, Option.some.injEq] at h'
      subst h'
      rw [ih hc']

/-- The right edge of a row is one of the forest. -/
theorem Lists.rightEdge (h : f.Lists w) (hw : w.spine.drop k = t :: cs) : f.RightEdge t cs := by
  induction cs generalizing k t with
  | nil =>
    have hplace (m : Nat) : w.spine[k + m]? = [t][m]? := by rw [← hw, List.getElem?_drop]
    have hlast := h.getLast?_children (hplace 0)
    rw [hplace 1] at hlast
    exact .stop (List.getLast?_eq_none_iff.1 hlast)
  | cons c cs ih =>
    have hplace (m : Nat) : w.spine[k + m]? = (t :: c :: cs)[m]? := by
      rw [← hw, List.getElem?_drop]
    refine .down ((h.getLast?_children (hplace 0)).trans (hplace 1)) (ih (k := k + 1) ?_)
    rw [← List.drop_drop, hw, List.drop_one, List.tail_cons]

/-! ## The way down -/

theorem Stretched.start (hw : w.spine = i :: edge) : Stretched f w i edge 0 f w where
  spine_eq := by simp [hw]
  heads_eq := rfl
  nodes_eq := by simp
  chained d _ := by simpa using Chained.refl f d
  label_eq j := by simp

theorem Stretched.size_eq (h : Stretched f w i edge k g v) :
    g.size = f.size + (k - edge.length) := by
  have hlast := List.getLast?_eq_some_getLast (List.cons_ne_nil i (edge.take k))
  exact (h.chained _ hlast).size_eq

/-- The way down has come to the last old node on the edge, or to the last new one. -/
theorem Stretched.eq_chainEnd (h : Stretched f w i edge k g v) (ht : v.spine[k]? = some t)
    (hd : (i :: edge.take k).getLast? = some d) : t = f.chainEnd d (k - edge.length) := by
  rw [h.spine_eq] at ht
  by_cases hk : k ≤ edge.length
  · rw [Nat.sub_eq_zero_of_le hk, List.range'_zero, List.append_nil] at ht
    rw [← List.take_succ_cons, List.getLast?_take, if_neg (Nat.succ_ne_zero k),
      Nat.add_sub_cancel, ht] at hd
    rw [Nat.sub_eq_zero_of_le hk]
    exact Option.some.inj hd
  · obtain ⟨m, rfl⟩ : ∃ m, k = edge.length + m + 1 := ⟨k - edge.length - 1, by omega⟩
    have hsub : edge.length + m + 1 - edge.length = m + 1 := by omega
    rw [hsub] at ht ⊢
    rw [List.getElem?_cons_succ, List.getElem?_append_right (Nat.le_add_right ..),
      Nat.add_sub_cancel_left, List.getElem?_range' (Nat.lt_succ_self m), Nat.one_mul] at ht
    exact (Option.some.inj ht).symm

/-- The next node on the edge is marked. -/
theorem Stretched.mark (h : Stretched f w i edge k g v) (hg : g.Holds v)
    (hc : v.spine[k + 1]? = some c) : Stretched f w i edge (k + 1) (g.expand c) v := by
  have hlt : c < g.size := hg.lt c (Holds.mem_of_spine hc)
  rw [h.spine_eq, List.getElem?_cons_succ] at hc
  -- Past the old nodes there would be no next one.
  have hk : k < edge.length := by
    have hbound := (List.getElem?_eq_some_iff.1 hc).1
    rw [List.length_append, List.length_range'] at hbound
    omega
  rw [List.getElem?_append_left hk] at hc
  have hnone : k - edge.length = 0 := Nat.sub_eq_zero_of_le (Nat.le_of_lt hk)
  have hnext : k + 1 - edge.length = 0 := Nat.sub_eq_zero_of_le hk
  obtain ⟨hspine, hheads, hnodes, hchained, hlabel⟩ := h
  simp only [hnone] at hspine hnodes hchained hlabel
  refine ⟨by rw [hnext, hspine], hheads, by rw [hnext, hnodes], fun d _ => ?_, fun j => ?_⟩
  · have hlast := List.getLast?_eq_some_getLast (List.cons_ne_nil i (edge.take k))
    rw [hnext]
    exact ((hchained _ hlast).of_zero d).modifyLabel ..
  · rw [expand, label_modifyLabel, hlabel, hnext, List.take_add_one, hc]
    by_cases hcj : c = j
    · subst hcj
      simp only [hlt, and_self, if_true, Option.toList_some, List.range'_zero, List.append_nil,
        List.mem_append, List.mem_singleton, or_true]
      split <;> rfl
    · simp [hcj, Ne.symm hcj]

theorem Stretched.tip_lt (hw : f.Holds w) (hs : w.spine = i :: edge)
    (hd : (i :: edge.take k).getLast? = some d) : d < f.size := by
  refine hw.lt d (Row.mem_nodes_of_mem_spine ?_)
  rw [← List.take_succ_cons, ← hs] at hd
  exact List.mem_of_mem_take (List.mem_of_getLast? hd)

/-- Below the end of the edge a node without a name is made. -/
theorem Stretched.make (hw : f.Holds w) (hs : w.spine = i :: edge) (h : Stretched f w i edge k g v)
    (hg : g.Holds v) (ht : v.spine[k]? = some t) (hlength : v.spine.length = k + 1) :
    Stretched f w i edge (k + 1) ((g.addBelow t { name := [] }).2.expand g.size)
      (v.grow t g.size) := by
  have hk : edge.length ≤ k := by
    rw [h.spine_eq, List.length_cons, List.length_append, List.length_range'] at hlength
    omega
  have hsub : k + 1 - edge.length = k - edge.length + 1 := Nat.succ_sub hk
  have htake : edge.take (k + 1) = edge.take k := by
    rw [List.take_of_length_le hk, List.take_of_length_le (Nat.le_succ_of_le hk)]
  constructor
  case spine_eq =>
    rw [(Row.growsAt_grow hg.nodup ht).spine, List.take_of_length_le (Nat.le_of_eq hlength),
      h.spine_eq, h.size_eq, hsub, List.range'_concat]
    simp
  case heads_eq => exact (Row.heads_changeBelow v).trans h.heads_eq
  case nodes_eq =>
    rw [Row.nodes_grow hg.nodup ht, h.nodes_eq, h.size_eq, hsub, List.range'_concat]
    simp
  case chained =>
    intro d hd
    rw [htake] at hd
    rw [hsub, h.eq_chainEnd ht hd]
    exact ((h.chained d hd).addBelow (tip_lt hw hs hd)).modifyLabel ..
  case label_eq =>
    intro j
    rw [expand, label_modifyLabel, label_addBelow, size_addBelow, h.label_eq, hsub, htake,
      List.range'_concat, Nat.one_mul, ← h.size_eq, ← List.append_assoc]
    generalize hxs : edge.take k ++ List.range' f.size (k - edge.length) = xs
    by_cases hj : j = g.size
    · have hnew : f.label j = { name := [] } := by
        refine label_of_size_le ?_
        rw [hj, h.size_eq]
        exact Nat.le_add_right ..
      rw [if_pos ⟨hj.symm, Nat.lt_succ_self _⟩, if_pos hj, if_pos (by simp [hj]), hnew]
    · have hmem : j ∈ xs ++ [g.size] ↔ j ∈ xs := by simp [hj]
      simp only [hmem, hj, Ne.symm hj, false_and, if_false]

/-- The way down from a node, in the tree below it. -/
theorem Ranked.exists_stretched {rank : NodeId → Nat} (hr : f.Ranked rank) (hf : f.Coherent)
    (hi : i < f.size) (depth : Nat) :
    ∃ (edge : List NodeId) (w v : Row), f.Holds w ∧ w.heads = [i] ∧ w.spine = i :: edge ∧
      (openDown depth i f).2.Holds v ∧ v.spine[depth]? = some (openDown depth i f).1 ∧
      Stretched f w i edge depth (openDown depth i f).2 v := by
  obtain ⟨below, hw⟩ := hr.exists_holds hf hi
  have hs : (Row.cons i below .nil).spine = i :: below.spine := by rw [Row.spine]
  obtain ⟨v, hv, ht, hstretched⟩ := hw.openDown (P := Stretched f (.cons i below .nil) i below.spine)
    (fun hg h hc => h.mark hg hc) (fun hg h ht hlength => h.make hw hs hg ht hlength)
    (.start hs) (t := i) (k := 0) (by rw [hs]; rfl) depth
  rw [Nat.zero_add] at ht hstretched
  exact ⟨below.spine, _, v, hw, rfl, hs, hv, ht, hstretched⟩

/-! ## Adding a line -/

/-- A new node at the end of the way is the end of the right edge. -/
theorem Stretched.rightEdge_grow (hs : Stretched f w i edge k g v) (hg : g.Holds v)
    (ht : v.spine[k]? = some t) (hh : h.Holds (v.grow t c)) :
    h.RightEdge i (edge.take k ++ List.range' f.size (k - edge.length) ++ [c]) := by
  have hlength : (List.range' f.size (k - edge.length)).length ≤ k - edge.length :=
    Nat.le_of_eq List.length_range'
  refine hh.lists.rightEdge (k := 0) ?_
  rw [List.drop_zero, (Row.growsAt_grow hg.nodup ht).spine, hs.spine_eq, List.take_succ_cons,
    List.take_append, List.take_of_length_le hlength, List.cons_append]

/-- It comes after all other nodes below `i`. -/
theorem Stretched.nodesBelow_grow (hs : Stretched f w i edge k g v) (hg : g.Holds v)
    (ht : v.spine[k]? = some t) (hw : f.Holds w) (hheads : w.heads = [i])
    (hh : h.Holds (v.grow t c)) :
    h.nodesBelow i = f.nodesBelow i ++ List.range' f.size (k - edge.length) ++ [c] := by
  rw [hh.nodesBelow_eq ((Row.heads_changeBelow v).trans (hs.heads_eq.trans hheads)),
    hw.nodesBelow_eq hheads, Row.nodes_grow hg.nodup ht, hs.nodes_eq]

/-- Adding a line to a tree. The way down leads along the right edge, `line.depth` nodes of it, or
all of them and as many nodes without a name as are missing. The nodes of the tree are those that it
had, then the nodes without a name, then the node of the line, which is below the last node on the
way. The nodes on the way are shown open. Nothing else changes, up to the levels: those are what
setting the level of the line makes of them, at its node. -/
theorem addChild_effect (hf : f.Coherent) (ha : f.Acyclic) (hi : i < f.size) (markup : Text) :
    ∃ edge, f.RightEdge i edge ∧
      let line := Markup.Line.read markup
      let gaps := List.range' f.size (line.depth - edge.length)
      let way := edge.take line.depth ++ gaps
      let c := (f.addChild i markup).1
      let g := (f.addChild i markup).2
      line.depth = Markup.depthOf markup ∧ way.length = line.depth ∧
      c = f.size + gaps.length ∧ g.nodesBelow i = f.nodesBelow i ++ gaps ++ [c] ∧
      g.RightEdge i (way ++ [c]) ∧
      ∃ d k, (i :: edge.take line.depth).getLast? = some d ∧
        f.Chained d (gaps.length + 1) k ∧
        k.label c = { name := line.name, icon := line.icon } ∧
        (∀ j ∈ gaps, k.label j = { name := [], expanded := true }) ∧
        (∀ j < f.size,
          k.label j = if j ∈ way then { f.label j with expanded := true } else f.label j) ∧
        k.setLevel c (some line.level) = .ok g := by
  obtain ⟨edge, w, v, hw, hheads, hs, hv, ht, hstretched⟩ :=
    (ha.ranked hf).exists_stretched hf hi (Markup.Line.read markup).depth
  refine ⟨edge, hw.lists.rightEdge (k := 0) hs, ?_⟩
  extract_lets line gaps way c g
  let x : Label := { name := line.name, icon := line.icon }
  have hadd : f.addChild i markup = ((openDown line.depth i f).2.size,
    ((openDown line.depth i f).2.addBelow (openDown line.depth i f).1 x).2.raise
      (openDown line.depth i f).2.size line.level) := rfl
  obtain ⟨hc, hg⟩ : c = _ ∧ g = _ := ⟨congrArg Prod.fst hadd, congrArg Prod.snd hadd⟩
  generalize (openDown line.depth i f).1 = target at *
  generalize (openDown line.depth i f).2 = k at *
  obtain ⟨d, hd⟩ : ∃ d, (i :: edge.take line.depth).getLast? = some d :=
    ⟨_, List.getLast?_eq_some_getLast (List.cons_ne_nil _ _)⟩
  have hgaps : gaps.length = line.depth - edge.length := List.length_range'
  have hheld : g.Holds (v.grow target k.size) :=
    hg ▸ (hv.addBelow ht).congr (size_raise ..) fun _ => children_raise
  have hlabel {j : NodeId} (hj : j < k.size) : (k.addBelow target x).2.label j =
      if j ∈ way then { f.label j with expanded := true } else f.label j := by
    rw [label_addBelow, if_neg (Nat.ne_of_lt hj), hstretched.label_eq]
  refine ⟨rfl, ?_, ?_, hstretched.nodesBelow_grow hv ht hw hheads (hc ▸ hheld),
    hstretched.rightEdge_grow hv ht (hc ▸ hheld), d, (k.addBelow target x).2, hd, ?_, ?_, ?_, ?_,
    ?_⟩
  · simp only [way, List.length_append, List.length_take, hgaps]
    omega
  · rw [hc, hstretched.size_eq, hgaps]
  · rw [hgaps, hstretched.eq_chainEnd ht hd]
    exact (hstretched.chained d hd).addBelow (Stretched.tip_lt hw hs hd)
  · rw [hc, label_addBelow, if_pos rfl]
  · intro j hj
    obtain ⟨hle, hlt⟩ := List.mem_range'_1.1 hj
    rw [hlabel (hstretched.size_eq ▸ hlt), if_pos (List.mem_append_right _ hj), label_of_size_le hle]
  · exact fun j hj => hlabel (Nat.lt_of_lt_of_le hj (hstretched.size_eq ▸ Nat.le_add_right ..))
  · rw [hc, hg, setLevel_of_none lt_size_addBelow (by rw [level_addBelow, if_pos rfl])]

/-- A tree whose right edge has one node below the root, and a line with three tabs. Two nodes are
made on the way to its node. -/
theorem addChild_effect_gaps :
    ∃ f g : Forest, f.Coherent ∧ f.Acyclic ∧ f.nodesBelow 0 = [0, 1, 2, 3] ∧ f.RightEdge 0 [3] ∧
      f.addChild 0 "\t\t\t! Slow" = (6, g) ∧ g.nodesBelow 0 = [0, 1, 2, 3, 4, 5, 6] ∧
      g.RightEdge 0 [3, 4, 5, 6] ∧
      ∃ k, f.Chained 3 3 k ∧ k.label 3 = { f.label 3 with expanded := true } ∧
        k.label 2 = f.label 2 ∧ k.label 6 = { name := "Slow" } ∧
        k.setLevel 6 (some .warn) = .ok g := by
  have hroot := (fresh_empty.addRoot "Build").owned.addBelow (i := 0) (by decide)
    (x := { name := "src" })
  have howned := (hroot.addBelow (i := 1) (by decide) (x := { name := "main.c" })).addBelow
    (i := 0) (by decide) (x := { name := "docs" })
  obtain ⟨edge, hedge, hadd⟩ :=
    addChild_effect howned.coherent howned.acyclic (i := 0) (by decide) "\t\t\t! Slow"
  obtain rfl : edge = [3] := hedge.unique (.down rfl (.stop rfl))
  obtain ⟨-, -, -, hnodes, hright, d, k, hd, hchained, hnew, -, hold, hset⟩ := hadd
  obtain rfl : 3 = d := Option.some.inj hd
  exact ⟨_, _, howned.coherent, howned.acyclic, by decide, hedge, rfl, hnodes, hright, k, hchained,
    hold 3 (by decide), hold 2 (by decide), hnew, hset⟩

end ReportTree.Forest
