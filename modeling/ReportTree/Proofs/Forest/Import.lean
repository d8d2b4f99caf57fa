import ReportTree.Proofs.Failure.Walk
import ReportTree.Proofs.Forest.Growth
import ReportTree.Proofs.Forest.Raise
import ReportTree.Proofs.Forest.Spine

/-!
# Failures in a tree

Showing a failure makes one node for every failure that belongs to it, at the right edge of a new
tree below the node. Lines of markup make more nodes in between, but they leave the nodes of
failures alone: those have the level `error` and are marked already.

* `Extends`: what may have changed while nodes were made at the right edge.
* `extends_addLine`, `extends_addFailure`, `extends_addAccount`: lines, one failure, an account.
* `imported_addException`: all of what showing a failure does.
-/

namespace ReportTree

/-- No line of markup is more severe than an error. -/
theorem Markup.Line.error_atLeast_level (t : Text) :
    Level.error.atLeast (Markup.Line.read t).level = true := by
  have hmarker (t : Text) : Level.error.atLeast (Markup.splitMarker t).1 = true := by
    unfold Markup.splitMarker
    split
    · split
      · next l _ hl =>
        unfold Level.ofMarker? at hl
        split_ifs at hl <;> cases hl <;> rfl
      · rfl
    · rfl
  exact hmarker _

namespace Forest

/-- The node shows an error and is marked to be shown open. -/
def Fails (f : Forest) (j : NodeId) : Prop := f.level j = .error ∧ (f.label j).expanded = true

/-- `g` with the row `v` comes of `f` with the row `w` by making nodes at the right edge, at or below
place `k`. The row has the nodes made since `first`. -/
structure Extends (first k : Nat) (f : Forest) (w : Row) (g : Forest) (v : Row) : Prop where
  grown : g.Grown first v
  size_le : f.size ≤ g.size
  heads_eq : v.heads = w.heads
  take_spine : v.spine.take (k + 1) = w.spine.take (k + 1)
  /-- Nodes outside of the row keep their children. -/
  children_eq : ∀ j < first, g.children j = f.children j
  parent_eq : ∀ j < f.size, g.parent j = f.parent j
  label_eq : ∀ j < f.size, f.Fails j → g.label j = f.label j

variable {first k m : Nat} {f g h : Forest} {u v w : Row} {c i t : NodeId} {x : Label} {l : Level}

theorem Extends.refl (hw : f.Grown first w) : Extends first k f w f w :=
  ⟨hw, Nat.le_refl _, rfl, rfl, fun _ _ => rfl, fun _ _ => rfl, fun _ _ _ => rfl⟩

theorem Extends.fails (hg : Extends first k f w g v) {j : NodeId} (hj : j < f.size)
    (hf : f.Fails j) : g.Fails j := by
  rw [Fails, level, hg.label_eq j hj hf]
  exact hf

/-- What goes on at a deeper place goes on at this one. -/
theorem Extends.trans (hg : Extends first k f w g v) (hh : Extends first m g v h u)
    (hkm : k ≤ m) : Extends first k f w h u where
  grown := hh.grown
  size_le := Nat.le_trans hg.size_le hh.size_le
  heads_eq := hh.heads_eq.trans hg.heads_eq
  take_spine := by
    have htake := congrArg (List.take (k + 1)) hh.take_spine
    rw [List.take_take, List.take_take, Nat.min_eq_left (Nat.succ_le_succ hkm)] at htake
    exact htake.trans hg.take_spine
  children_eq j hj := (hh.children_eq j hj).trans (hg.children_eq j hj)
  parent_eq j hj :=
    (hh.parent_eq j (Nat.lt_of_lt_of_le hj hg.size_le)).trans (hg.parent_eq j hj)
  label_eq j hj hf :=
    (hh.label_eq j (Nat.lt_of_lt_of_le hj hg.size_le) (hg.fails hj hf)).trans (hg.label_eq j hj hf)

/-- Down to place `k` the right edge stays. -/
theorem Extends.getElem?_spine (hg : Extends first k f w g v) (hm : m ≤ k) :
    v.spine[m]? = w.spine[m]? := by
  have htake := congrArg (·[m]?) hg.take_spine
  simpa only [List.getElem?_take_of_lt (Nat.lt_succ_of_le hm)] using htake

/-! ## Steps -/

theorem Extends.expand (hg : Extends first k f w g v) (c : NodeId) :
    Extends first k f w (g.expand c) v where
  grown := hg.grown.congr size_modifyLabel fun _ => children_modifyLabel
  size_le := hg.size_le.trans (Nat.le_of_eq size_modifyLabel.symm)
  heads_eq := hg.heads_eq
  take_spine := hg.take_spine
  children_eq j hj := children_modifyLabel.trans (hg.children_eq j hj)
  parent_eq j hj := parent_modifyLabel.trans (hg.parent_eq j hj)
  label_eq j hj hf := by
    have hopen : (g.label j).expanded = true := (hg.fails hj hf).2
    rw [← hg.label_eq j hj hf, Forest.expand, label_modifyLabel]
    split
    · rw [← hopen]
    · rfl

/-- A node that was made since gets a level, an error at most. -/
theorem Extends.raise (hg : Extends first k f w g v) (hc : f.size ≤ c)
    (hl : Level.error.atLeast l = true) : Extends first k f w (g.raise c l) v where
  grown := hg.grown.congr (size_raise ..) fun _ => children_raise
  size_le := hg.size_le.trans (Nat.le_of_eq (size_raise ..).symm)
  heads_eq := hg.heads_eq
  take_spine := hg.take_spine
  children_eq j hj := children_raise.trans (hg.children_eq j hj)
  parent_eq j hj := parent_raise.trans (hg.parent_eq j hj)
  label_eq j hj hf := by
    have hne : c ≠ j := Nat.ne_of_gt (Nat.lt_of_lt_of_le hj hc)
    have herror : (g.level j).atLeast l = true := by rwa [(hg.fails hj hf).1]
    rw [← hg.label_eq j hj hf, label_raise, level_raise_of_atLeast hne herror]
    rfl

theorem Extends.addBelow (hg : Extends first k f w g v) (hm : k ≤ m) (ht : v.spine[m]? = some t)
    (x : Label) : Extends first k f w (g.addBelow t x).2 (v.grow t g.size) where
  grown := hg.grown.addBelow ht
  size_le := hg.size_le.trans (by rw [size_addBelow]; exact Nat.le_succ _)
  heads_eq := (Row.heads_changeBelow v).trans hg.heads_eq
  take_spine := by
    have hlt := (List.getElem?_eq_some_iff.1 ht).1
    have hle : k + 1 ≤ (v.spine.take (m + 1)).length := by
      rw [List.length_take]
      omega
    rw [(Row.growsAt_grow hg.grown.nodup ht).spine, List.take_append_of_le_length hle,
      List.take_take, Nat.min_eq_left (Nat.succ_le_succ hm)]
    exact hg.take_spine
  children_eq j hj := by
    obtain ⟨hfirst, hsize⟩ := hg.grown.mem_of_spine ht
    rw [children_addBelow hsize, if_neg (Nat.ne_of_gt (Nat.lt_of_lt_of_le hj hfirst))]
    exact hg.children_eq j hj
  parent_eq j hj := by
    rw [parent_addBelow, if_neg (Nat.ne_of_lt (Nat.lt_of_lt_of_le hj hg.size_le))]
    exact hg.parent_eq j hj
  label_eq j hj hf := by
    rw [label_addBelow, if_neg (Nat.ne_of_lt (Nat.lt_of_lt_of_le hj hg.size_le))]
    exact hg.label_eq j hj hf

/-! ## Lines of markup -/

theorem extends_addLine (hw : f.Grown first w) (ht : w.spine[k]? = some t) {line : Markup.Line}
    (hl : Level.error.atLeast line.level = true) :
    ∃ v, Extends first k f w (f.addLine t line).2 v := by
  have hopen := hw.openDown (P := fun m g v => k ≤ m ∧ Extends first k f w g v)
    (fun _ hp _ => ⟨Nat.le_succ_of_le hp.1, hp.2.expand _⟩)
    (fun _ hp ht _ => ⟨Nat.le_succ_of_le hp.1, (hp.2.addBelow hp.1 ht _).expand _⟩)
    ⟨Nat.le_refl k, .refl hw⟩ ht line.depth
  rw [addLine_eq]
  generalize openDown line.depth t f = r at *
  obtain ⟨target, g⟩ := r
  obtain ⟨v, -, htarget, hm, hg⟩ := hopen
  exact ⟨_, (hg.addBelow hm htarget _).raise hg.size_le hl⟩

theorem extends_addChild (hw : f.Grown first w) (ht : w.spine[k]? = some t) (markup : Text) :
    ∃ v, Extends first k f w (f.addChild t markup).2 v :=
  extends_addLine hw ht (Markup.Line.error_atLeast_level markup)

theorem extends_addChildren (hw : f.Grown first w) (ht : w.spine[k]? = some t)
    (lines : List Text) :
    ∃ v, Extends first k f w (lines.foldl (fun f line => (f.addChild t line).2) f) v := by
  induction lines generalizing f w with
  | nil => exact ⟨w, .refl hw⟩
  | cons line lines ih =>
    obtain ⟨v, hv⟩ := extends_addChild hw ht line
    obtain ⟨u, hu⟩ := ih hv.grown ((hv.getElem?_spine (Nat.le_refl k)).trans ht)
    rw [List.foldl_cons]
    exact ⟨u, hv.trans hu (Nat.le_refl k)⟩

/-! ## Failures -/

/-- What the node of a failure shows. -/
def failureLabel (x : Failure) : Label :=
  { name := (messageLines x.displayText).1, level := .error, expanded := true }

variable {x : Failure}

theorem size_failureNode (f : Forest) (i : NodeId) (x : Failure) :
    (f.failureNode i x).size = f.size + 1 := by
  rw [failureNode, Forest.expand, size_modifyLabel, size_raise, size_addBelow]

theorem lt_size_failureNode (f : Forest) (i : NodeId) (x : Failure) :
    f.size < (f.failureNode i x).size :=
  Nat.lt_of_lt_of_eq (Nat.lt_succ_self _) (size_failureNode f i x).symm

theorem parent_failureNode {j : NodeId} :
    (f.failureNode i x).parent j = if j = f.size then some i else f.parent j := by
  rw [failureNode, Forest.expand, parent_modifyLabel, parent_raise, parent_addBelow]

theorem children_failureNode (hi : i < f.size) {j : NodeId} :
    (f.failureNode i x).children j =
      if i = j then f.children j ++ [f.size] else f.children j := by
  rw [failureNode, Forest.expand, children_modifyLabel, children_raise, children_addBelow hi]

theorem label_failureNode (f : Forest) (i : NodeId) (x : Failure) :
    (f.failureNode i x).label f.size = failureLabel x := by
  have hlt : f.size < (f.addBelow i { name := (messageLines x.displayText).1 }).2.size :=
    lt_size_addBelow
  rw [failureNode, Forest.expand, label_modifyLabel, size_raise, if_pos ⟨rfl, hlt⟩, label_raise,
    level_raise_self hlt, label_addBelow, if_pos rfl]
  rfl

/-- The node of a failure shows an error. -/
theorem fails_of_label_eq {j : NodeId} (h : f.label j = failureLabel x) : f.Fails j := by
  rw [Fails, level, h]
  exact ⟨rfl, rfl⟩

/-- The other lines of the text leave the node as it is. -/
theorem extends_addFailure_of_grown (hw : (f.failureNode i x).Grown first w)
    (hc : w.spine[k]? = some f.size) :
    ∃ v, Extends first k (f.failureNode i x) w (f.addFailure i x).2 v ∧
      v.spine[k]? = some f.size ∧ (f.addFailure i x).2.label f.size = failureLabel x := by
  have hlabel := label_failureNode f i x
  obtain ⟨v, hv⟩ := extends_addChildren hw hc (messageLines x.displayText).2
  rw [addFailure_eq]
  exact ⟨v, hv, (hv.getElem?_spine (Nat.le_refl k)).trans hc,
    (hv.label_eq _ (lt_size_failureNode f i x) (fails_of_label_eq hlabel)).trans hlabel⟩

/-- A failure below a node on the right edge. -/
theorem extends_addFailure (hw : f.Grown first w) (ht : w.spine[k]? = some t) (x : Failure) :
    ∃ v, Extends first k f w (f.addFailure t x).2 v ∧ v.spine[k + 1]? = some f.size ∧
      (f.addFailure t x).2.label f.size = failureLabel x := by
  have hnode : Extends first k f w (f.failureNode t x) (w.grow t f.size) :=
    (((Extends.refl hw).addBelow (Nat.le_refl k) ht _).raise (Nat.le_refl _) rfl).expand _
  obtain ⟨v, hv, hspine, hlabel⟩ :=
    extends_addFailure_of_grown hnode.grown (Row.getElem?_spine_grow hw.nodup ht)
  exact ⟨v, hnode.trans hv (Nat.le_succ k), hspine, hlabel⟩

/-! ## Accounts -/

mutual

/-- The nodes that are made for the failures of an account below `i`, each with its failure, in the
order in which they are made. -/
def accountNodes (f : Forest) (g : Failures) (i : NodeId) :
    Failures.Account → List (FailureId × NodeId)
  | .of e parts =>
    let (c, f) := f.addFailure i (g.get e)
    (e, c) :: accountsNodes f g c parts

/-- The nodes that are made for the failures of accounts below `i`, one account after the other. -/
def accountsNodes (f : Forest) (g : Failures) (i : NodeId) :
    List Failures.Account → List (FailureId × NodeId)
  | [] => []
  | a :: as => accountNodes f g i a ++ accountsNodes (f.addAccount g i a).2 g i as

end

mutual

/-- There is a node for every failure of the account, in the same order. -/
theorem map_fst_accountNodes (f : Forest) (g : Failures) (i : NodeId) (a : Failures.Account) :
    (accountNodes f g i a).map Prod.fst = a.failures := by
  match a with
  | .of e parts =>
    rw [accountNodes, List.map_cons, map_fst_accountsNodes, Failures.Account.failures]

theorem map_fst_accountsNodes (f : Forest) (g : Failures) (i : NodeId)
    (as : List Failures.Account) :
    (accountsNodes f g i as).map Prod.fst = Failures.Account.failuresAll as := by
  match as with
  | [] => rfl
  | a :: as =>
    rw [accountsNodes, List.map_append, map_fst_accountNodes, map_fst_accountsNodes,
      Failures.Account.failuresAll]

end

/-- Between the two forests, the nodes of failures were made in this order. -/
structure Makes (failures : Failures) (f g : Forest) (made : List (FailureId × NodeId)) : Prop where
  size_le : f.size ≤ g.size
  sublist : (made.map Prod.snd).Sublist (List.range' f.size (g.size - f.size))
  label_eq : ∀ p ∈ made, g.label p.2 = failureLabel (failures.get p.1)

variable {failures : Failures} {made made' : List (FailureId × NodeId)}

theorem Makes.lt (hmade : Makes failures f g made) {p : FailureId × NodeId} (hp : p ∈ made) :
    p.2 < g.size := by
  have hmem := (List.mem_range'_1.1 (hmade.sublist.subset (List.mem_map_of_mem hp))).2
  rwa [Nat.add_sub_cancel' hmade.size_le] at hmem

/-- Nodes that are made afterwards leave those of failures alone. -/
theorem Makes.append (hmade : Makes failures f g made) (hmade' : Makes failures g h made')
    (hext : Extends first k g v h u) : Makes failures f h (made ++ made') where
  size_le := Nat.le_trans hmade.size_le hmade'.size_le
  sublist := by
    have hle := hmade.size_le
    have hle' := hmade'.size_le
    have hrange := List.range'_append_1 (s := f.size) (m := g.size - f.size) (n := h.size - g.size)
    rw [show f.size + (g.size - f.size) = g.size by omega,
      show g.size - f.size + (h.size - g.size) = h.size - f.size by omega] at hrange
    rw [List.map_append, ← hrange]
    exact hmade.sublist.append hmade'.sublist
  label_eq p hp := by
    rcases List.mem_append.1 hp with hp | hp
    · have hlabel := hmade.label_eq p hp
      rw [hext.label_eq p.2 (hmade.lt hp) (fails_of_label_eq hlabel), hlabel]
    · exact hmade'.label_eq p hp

/-- The node of a failure, which is the first one made. -/
theorem makes_addFailure {e : FailureId} (hsize : f.size < (f.addFailure i (failures.get e)).2.size)
    (hlabel : (f.addFailure i (failures.get e)).2.label f.size = failureLabel (failures.get e)) :
    Makes failures f (f.addFailure i (failures.get e)).2 [(e, f.size)] where
  size_le := Nat.le_of_lt hsize
  sublist := by
    refine List.singleton_sublist.2 (List.mem_range'_1.2 ⟨Nat.le_refl _, ?_⟩)
    rwa [Nat.add_sub_cancel' (Nat.le_of_lt hsize)]
  label_eq p hp := by
    rw [List.mem_singleton.1 hp]
    exact hlabel

mutual

/-- An account below a node on the right edge. -/
theorem extends_addAccount {f : Forest} {w : Row} {t : NodeId} {k : Nat} (hw : f.Grown first w)
    (ht : w.spine[k]? = some t) (failures : Failures) (a : Failures.Account) :
    ∃ v, Extends first k f w (f.addAccount failures t a).2 v ∧
      Makes failures f (f.addAccount failures t a).2 (accountNodes f failures t a) := by
  match a with
  | .of e parts =>
    obtain ⟨v, hv, hc, hlabel⟩ := extends_addFailure hw ht (failures.get e)
    have hsize := (hv.grown.mem_of_spine hc).2
    obtain ⟨u, hu, hparts⟩ := extends_addAccounts hv.grown hc failures parts
    exact ⟨u, hv.trans hu (Nat.le_succ k), (makes_addFailure hsize hlabel).append hparts hu⟩

theorem extends_addAccounts {f : Forest} {w : Row} {t : NodeId} {k : Nat} (hw : f.Grown first w)
    (ht : w.spine[k]? = some t) (failures : Failures) (as : List Failures.Account) :
    ∃ v, Extends first k f w (f.addAccounts failures t as) v ∧
      Makes failures f (f.addAccounts failures t as) (accountsNodes f failures t as) := by
  match as with
  | [] =>
    refine ⟨w, .refl hw, Nat.le_refl _, ?_, fun p hp => absurd hp List.not_mem_nil⟩
    exact List.nil_sublist _
  | a :: as =>
    obtain ⟨v, hv, ha⟩ := extends_addAccount hw ht failures a
    have ht' := (hv.getElem?_spine (Nat.le_refl k)).trans ht
    obtain ⟨u, hu, has⟩ := extends_addAccounts hv.grown ht' failures as
    exact ⟨u, hv.trans hu (Nat.le_refl k), ha.append has hu⟩

end

/-! ## Showing a failure -/

/-- `r` are a node and a forest that come of showing the failure `e` below `i`, and `made` are the
nodes that were made for failures, each with its failure. -/
structure Imported (f : Forest) (failures : Failures) (i : NodeId) (e : FailureId)
    (r : NodeId × Forest) (made : List (FailureId × NodeId)) : Prop where
  /-- The node was not there before. -/
  root_eq : r.1 = f.size
  parent_root : r.2.parent r.1 = some i
  /-- It is the last child of `i` now, and nothing else is listed by the nodes that were there. -/
  children_eq : ∀ j < f.size,
    r.2.children j = if j = i then f.children i ++ [r.1] else f.children j
  /-- The node is that of `e`. -/
  head_eq : made.head? = some (e, r.1)
  /-- There are nodes for what can be reached from `e`. -/
  mem_iff : ∀ x, x ∈ made.map Prod.fst ↔ Failures.Reaches failures.parts e x
  /-- There is no more than one node for each failure. -/
  nodup : (made.map Prod.fst).Nodup
  /-- The failures are in the order of the depth-first walk. -/
  walk : Failures.Walk failures.parts [] [e] (made.map Prod.fst)
  /-- The nodes stand in the same order in the tree below the node of `e`. -/
  sublist : (made.map Prod.snd).Sublist (r.2.nodesBelow r.1)
  nodup_nodesBelow : (r.2.nodesBelow r.1).Nodup
  label_eq : ∀ p ∈ made, r.2.label p.2 = failureLabel (failures.get p.1)

theorem grown_failureNode (hi : i < f.size) :
    (f.failureNode i x).Grown f.size (.leaf f.size) := by
  refine ⟨⟨?_, trivial, trivial⟩, ?_, ?_⟩
  · rw [children_failureNode hi, if_neg (Nat.ne_of_lt hi), children_of_size_le (Nat.le_refl _)]
    rfl
  · rw [size_failureNode, Nat.add_sub_cancel_left]
    rfl
  · rw [size_failureNode]
    exact Nat.le_succ _

/-- An account anywhere in a forest. The new nodes are a tree of their own, below `i`. -/
theorem extends_addAccount_of_lt (hi : i < f.size) (failures : Failures) (e : FailureId)
    (parts : List Failures.Account) :
    ∃ v, Extends f.size 0 (f.failureNode i (failures.get e)) (.leaf f.size)
        (f.addAccount failures i (.of e parts)).2 v ∧
      Makes failures f (f.addAccount failures i (.of e parts)).2
        (accountNodes f failures i (.of e parts)) := by
  obtain ⟨v, hv, hc, hlabel⟩ := extends_addFailure_of_grown (k := 0) (grown_failureNode hi) rfl
  have hsize := (hv.grown.mem_of_spine hc).2
  obtain ⟨u, hu, hparts⟩ := extends_addAccounts hv.grown hc failures parts
  exact ⟨u, hv.trans hu (Nat.le_refl 0), (makes_addFailure hsize hlabel).append hparts hu⟩

/-- Showing a failure makes one node for each failure that can be reached, in the order of the walk,
and appends nothing but the tree of them to `i`. -/
theorem imported_addException (failures : Failures) (e : FailureId) (hi : i < f.size) :
    f.Imported failures i e (f.addException failures i e)
      (accountNodes f failures i (failures.account id e)) := by
  obtain ⟨taken, hwalk, hfailures⟩ :=
    failures.walk_failures_account id (fun _ => Failures.parts_of_size_le) e
  rw [List.map_id] at hfailures
  have hfst := map_fst_accountNodes f failures i (failures.account id e)
  rw [addException]
  generalize failures.account id e = a at *
  obtain ⟨e', parts⟩ := a
  -- The walk takes up its start first.
  obtain rfl : e' = e := by
    rw [Failures.Account.failures] at hfailures
    subst hfailures
    cases hwalk with
    | skip he => cases he
    | take => rfl
  obtain ⟨v, hv, hmade⟩ := extends_addAccount_of_lt hi failures e' parts
  have hroot : (f.addAccount failures i (.of e' parts)).1 = f.size := rfl
  have hbelow := hv.grown.holds.nodesBelow_eq hv.heads_eq
  rw [hfailures] at hfst
  exact {
    root_eq := hroot
    parent_root := by
      rw [hroot, hv.parent_eq _ (lt_size_failureNode ..), parent_failureNode, if_pos rfl]
    children_eq := fun j hj => by
      rw [hroot, hv.children_eq j hj, children_failureNode hi]
      by_cases hji : j = i
      · rw [if_pos hji, if_pos hji.symm, hji]
      · rw [if_neg hji, if_neg (Ne.symm hji)]
    head_eq := rfl
    mem_iff := fun x => by rw [hfst]; exact hwalk.mem_iff_reaches
    nodup := hfst ▸ hwalk.nodup
    walk := hfst ▸ hwalk
    sublist := by
      rw [hroot, hbelow, hv.grown.nodes_eq]
      exact hmade.sublist
    nodup_nodesBelow := by
      rw [hroot, hbelow]
      exact hv.grown.nodup
    label_eq := hmade.label_eq }

/-- A group of two failures that one of them caused. The other one was caused by the group. -/
def circle : Failures where
  items := #[
    { kind := .named "ExceptionGroup", arguments := [.text "Build"], members := [1, 2]
      cause := some 1 },
    { kind := .named "ValueError", arguments := [.text (.ofString "No target\n! Look here")]
      context := some 2 },
    { kind := .named "OSError", arguments := [.text "No space"], cause := some 0 }]

/-- Every failure of the circle has one node, and so has the other line of a text. -/
theorem imported_addException_circle :
    0 < (empty.addRoot "Build").2.size ∧
      (empty.addRoot "Build").2.Imported circle 0 0
        ((empty.addRoot "Build").2.addException circle 0 0) [(0, 1), (1, 2), (2, 4)] := by
  have hi : 0 < (empty.addRoot "Build").2.size := by decide
  have hnodes : (empty.addRoot "Build").2.accountNodes circle 0 (circle.account id 0) =
      [(0, 1), (1, 2), (2, 4)] := by decide +kernel
  exact ⟨hi, hnodes ▸ imported_addException circle 0 hi⟩

end Forest

end ReportTree
