import Mathlib.Data.List.Basic
import ReportTree.Proofs.Tree.Position
import ReportTree.Report.Outline

/-!
# What a filter leaves of a tree

A tree is shown line by line, without what is below a node that the filter leaves out. So a node is
shown if it passes the filter and all nodes above it do, up to the root, which is always shown. Where
every node is at least as severe as its children, a node that passes is shown, for those above it pass
as well.

* `Outline.entries`: what is shown of one node.
* `Outline.treeLines_eq`: the lines are those of the nodes that pass.
* `Outline.treeLines_filtered`: which nodes are shown, in which order, and how.
-/

namespace ReportTree.Outline

open ReportTree.Tree (Position)

/-- As many blanks. -/
def blanks (n : Nat) : Text := List.replicate n ' '

/-- The line of a node: its name, its icon between parentheses if it has one, and its level between
brackets unless that is none, after two blanks for each level of depth. -/
def labelEntry (depth : Nat) (x : Label) : Text :=
  let icon : Text := if x.icon = [] then [] else " (" ++ x.icon ++ ")"
  let level : Text := if x.level = .none then [] else " [" ++ x.level.name ++ "]"
  blanks (2 * depth) ++ "- " ++ x.name ++ icon ++ level

/-- The lines of the details of a node, which stand one level deeper than the node. -/
def detailEntries (depth : Nat) (x : Label) : List Text :=
  match x.details with
  | none | some [] => []
  | some (c :: d) =>
    (Text.splitOn '\n' (c :: d)).map fun line => blanks (2 * (depth + 1)) ++ "| " ++ line

/-- What is shown of one node. -/
def entries (depth : Nat) (x : Label) : List Text := labelEntry depth x :: detailEntries depth x

theorem indent_succ (depth : Nat) : indent (depth + 1) = indent depth ++ "  " := by
  rw [indent, indent, Text.repeated, Text.repeated, List.replicate_succ', List.flatten_append]
  rfl

theorem indent_eq (depth : Nat) : indent depth = blanks (2 * depth) := by
  induction depth with
  | zero => rfl
  | succ depth ih =>
    rw [indent_succ, ih, blanks, blanks, Nat.mul_succ, List.replicate_add]
    rfl

theorem labelLine_eq (depth : Nat) (x : Label) : labelLine false depth x = labelEntry depth x := by
  rw [labelLine, labelEntry, indent_eq, if_neg Bool.false_ne_true, caption, withLevel]
  simp only [List.isEmpty_iff, List.append_assoc]
  split <;> split <;> simp

theorem detailLines_eq (depth : Nat) (x : Label) : detailLines depth x = detailEntries depth x := by
  rw [detailLines, detailEntries]
  match x.details with
  | none => rfl
  | some [] => rfl
  | some (c :: d) =>
    have hblanks : indent depth ++ ("  | " : Text) = blanks (2 * (depth + 1)) ++ "| " := by
      rw [← indent_eq, indent_succ, List.append_assoc]
      rfl
    simp only [List.isEmpty_cons, hblanks]
    rfl

mutual

/-- The lines are those of the nodes that pass. -/
theorem treeLines_eq (filter : Level) (depth : Nat) (t : Tree) :
    treeLines filter false depth t =
      (t.shown (·.level.atLeast filter)).flatMap fun r => entries (depth + r.1.length) r.2 := by
  match t with
  | .node x ts =>
    rw [treeLines, Tree.shown, List.flatMap_cons, forestLines_eq filter depth 0 ts, labelLine_eq,
      detailLines_eq]
    rfl

theorem forestLines_eq (filter : Level) (depth k : Nat) (ts : List Tree) :
    forestLines filter false (depth + 1) ts =
      (Tree.shownFrom (·.level.atLeast filter) k ts).flatMap fun r =>
        entries (depth + r.1.length) r.2 := by
  match ts with
  | [] => rfl
  | t :: ts =>
    rw [forestLines, Tree.shownFrom, List.flatMap_append, forestLines_eq filter depth (k + 1) ts]
    split
    · rw [treeLines_eq filter (depth + 1) t, List.flatMap_map]
      simp only [List.length_cons, Nat.add_right_comm, Nat.add_assoc]
    · rfl

end

/-- A tree is shown as the entries of certain of its nodes, one node after the other: a node comes
before what is below it, and what is below it before the siblings that follow, so that none comes
twice. They are the root and the nodes that pass the filter with all that stand between the root and
them. In a dominated tree they are the root and the nodes that pass the filter. -/
theorem treeLines_filtered (filter : Level) (depth : Nat) (t : Tree) :
    ∃ rows : List (Position × Label),
      treeLines filter false depth t =
        (rows.flatMap fun r => entries (depth + r.1.length) r.2) ∧
      (rows.Pairwise fun a b => a.1 < b.1) ∧
      (∀ p x, (p, x) ∈ rows ↔ t.labelAt? p = some x ∧
        ∀ q, q <+: p → q ≠ [] → ∃ y, t.labelAt? q = some y ∧ y.level.atLeast filter = true) ∧
      (t.Dominated → ∀ p x, p ≠ [] → t.labelAt? p = some x →
        ((p, x) ∈ rows ↔ x.level.atLeast filter = true)) := by
  refine ⟨t.shown (·.level.atLeast filter), treeLines_eq filter depth t,
    Tree.pairwise_shown _ t, fun p x => Tree.mem_shown_iff, fun ht p x hne hx => ?_⟩
  rw [Tree.mem_shown_iff, and_iff_right hx, ht.passes_iff hx hne]

/-- A tree with a severe node two levels down, beside nodes that are less severe. -/
def broken : Tree :=
  .node { name := "Build", level := .error } [
    .node { name := "src", icon := "folder", level := .error } [
      .node { name := "main.c" } [],
      .node { name := "Broken", level := .error, details := some "No target\nNo rule" } []],
    .node { name := "docs", level := .info } []]

example : treeLines .warn false 0 broken =
    ["- Build [error]", "  - src (folder) [error]", "    - Broken [error]", "      | No target",
      "      | No rule"] := by decide +kernel

/-- The severe node is shown with the nodes above it, the others are not. -/
theorem treeLines_filtered_broken :
    ∃ rows : List (Position × Label),
      treeLines .warn false 0 broken = (rows.flatMap fun r => entries (0 + r.1.length) r.2) ∧
      broken.Dominated ∧ (∃ x, ([0, 1], x) ∈ rows) ∧ (∀ x, ([0, 0], x) ∉ rows) ∧
      ∀ x, ([1], x) ∉ rows := by
  obtain ⟨rows, hlines, -, hmem, hdominated⟩ := treeLines_filtered .warn 0 broken
  have hleaf (x : Label) : (Tree.node x []).Dominated := .node (by simp) (by simp)
  have hbroken : broken.Dominated := by
    refine .node (by decide) (List.forall_mem_cons.2 ⟨.node (by decide) ?_, by simp [hleaf]⟩)
    simp [hleaf]
  have hlisted {p : Position} {x : Label} (hne : p ≠ []) (hx : broken.labelAt? p = some x) :
      (p, x) ∈ rows ↔ x.level.atLeast .warn = true := hdominated hbroken p x hne hx
  have hhidden {p : Position} {y : Label} (hne : p ≠ []) (hy : broken.labelAt? p = some y)
      (hlevel : y.level.atLeast .warn = false) (x : Label) : (p, x) ∉ rows := by
    intro hx
    obtain rfl := Option.some_inj.1 (hy.symm.trans ((hmem p x).1 hx).1)
    rw [(hlisted hne hy).1 hx] at hlevel
    cases hlevel
  exact ⟨rows, hlines, hbroken, ⟨_, (hlisted (p := [0, 1]) (by decide) rfl).2 (by decide)⟩,
    hhidden (by decide) rfl (by decide), hhidden (by decide) rfl (by decide)⟩

end ReportTree.Outline
