import ReportTree.Report.Basic

/-!
# The level of a report

The level of a report is that of its most severe tab, which is what the root of the tab shows. A
severe node counts only as far as the root shows it, as it does where every node is at least as
severe as its children.

* `Document.maximumLevel_atLeast_iff`: the level of a document.
* `Tree.Dominated.atLeast_of_mem`: the root of a dominated tree is at least as severe as every node.
* `Document.Dominated.rootReaches_iff`: in dominated trees, roots are as severe as nodes.
-/

namespace ReportTree

/-! ## Trees -/

namespace Tree

/-- Every node is at least as severe as its children. -/
inductive Dominated : Tree → Prop
  | node {l : Label} {ts : List Tree} (hlevel : ∀ t ∈ ts, l.level.atLeast t.label.level = true)
      (hbelow : ∀ t ∈ ts, Dominated t) : Dominated (.node l ts)

theorem mem_preorderAll_iff {x : Label} {ts : List Tree} :
    x ∈ preorderAll ts ↔ ∃ t ∈ ts, x ∈ t.preorder := by
  induction ts with
  | nil => simp [preorderAll]
  | cons t ts ih => simp [preorderAll, ih]

theorem label_mem_preorder (t : Tree) : t.label ∈ t.preorder := by
  obtain ⟨l, ts⟩ := t
  rw [preorder]
  exact List.mem_cons_self

theorem Dominated.atLeast_of_mem {t : Tree} (ht : t.Dominated) {x : Label} (hx : x ∈ t.preorder) :
    t.label.level.atLeast x.level = true := by
  induction ht with
  | @node l ts hlevel _ ih =>
    rw [preorder] at hx
    rcases List.mem_cons.1 hx with rfl | hx
    · exact Level.atLeast_refl _
    · obtain ⟨t, ht, hx⟩ := mem_preorderAll_iff.1 hx
      exact Level.atLeast_trans (hlevel t ht) (ih t ht hx)

end Tree

namespace Forest

@[simp] theorem label_treeTo (depth : Nat) (f : Forest) (i : NodeId) :
    (treeTo depth f i).label = f.label i := by
  cases depth <;> rfl

@[simp] theorem label_tree (f : Forest) (i : NodeId) : (f.tree i).label = f.label i :=
  label_treeTo ..

end Forest

/-! ## Documents -/

namespace Document

/-- Some root of a tab is at least as severe as `l`. -/
def RootReaches (d : Document) (l : Level) : Prop :=
  ∃ t ∈ d.tabs, t.tree.label.level.atLeast l = true

/-- Some node of some tab is at least as severe as `l`. -/
def NodeReaches (d : Document) (l : Level) : Prop :=
  ∃ t ∈ d.tabs, ∃ x ∈ t.tree.preorder, x.level.atLeast l = true

/-- In every tab, every node is at least as severe as its children. -/
def Dominated (d : Document) : Prop := ∀ t ∈ d.tabs, t.tree.Dominated

theorem foldl_highest_atLeast_iff {α : Type} {level : α → Level} {as : List α} {start l : Level} :
    (as.foldl (fun m a => m.highest (level a)) start).atLeast l = true ↔
      start.atLeast l = true ∨ ∃ a ∈ as, (level a).atLeast l = true := by
  induction as generalizing start with
  | nil => simp
  | cons a as ih =>
    rw [List.foldl_cons, ih, Level.highest_atLeast_iff, or_assoc]
    simp only [List.mem_cons, exists_eq_or_imp]

theorem maximumLevel_atLeast_iff {d : Document} {l : Level} :
    d.maximumLevel.atLeast l = true ↔ l = .none ∨ d.RootReaches l := by
  rw [maximumLevel, foldl_highest_atLeast_iff, Level.none_atLeast_iff, RootReaches]

theorem RootReaches.nodeReaches {d : Document} {l : Level} (h : d.RootReaches l) :
    d.NodeReaches l := by
  obtain ⟨t, ht, hl⟩ := h
  exact ⟨t, ht, t.tree.label, t.tree.label_mem_preorder, hl⟩

/-- In dominated trees the roots show how severe the nodes are. -/
theorem Dominated.rootReaches_iff {d : Document} (hd : d.Dominated) {l : Level} :
    d.RootReaches l ↔ d.NodeReaches l := by
  refine ⟨RootReaches.nodeReaches, ?_⟩
  rintro ⟨t, ht, x, hx, hl⟩
  exact ⟨t, ht, Level.atLeast_trans ((hd t ht).atLeast_of_mem hx) hl⟩

end Document

/-! ## Reports -/

/-- A report and its document have one level. -/
theorem Report.maximumLevel_document (r : Report) : r.document.maximumLevel = r.maximumLevel := by
  rw [Document.maximumLevel, document, List.foldl_map, maximumLevel]
  simp only [Forest.label_tree]
  rfl

end ReportTree
