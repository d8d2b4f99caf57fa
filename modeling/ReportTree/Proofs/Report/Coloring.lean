import ReportTree.Proofs.Ansi.Painting
import ReportTree.Proofs.Json.RoundTrip
import ReportTree.Report.Outline

/-!
# Color only adds escape sequences

A report has the same lines with and without color, whatever its texts hold: without escape
sequences, those of its own texts included, they are equal line by line.

* `Outline.strip_labelLine`, `Outline.strip_heading`: the lines that are painted.
* `Outline.map_strip_treeLines`: the lines of a tree.
* `Document.outline_colored`: the lines of a report.
-/

namespace ReportTree

open Ansi (Pattern esc)

variable {p : Pattern}

theorem Level.strip_paint (l : Level) (t : Text) : p.strip (l.paint t) = p.strip t := by
  unfold Level.paint
  split
  · exact Ansi.Style.strip_paint _ t
  · rfl

namespace Outline

theorem esc_not_mem_indent (depth : Nat) : esc ∉ indent depth ++ ("- " : Text) := by
  rw [List.mem_append, not_or]
  exact ⟨fun h => absurd (Json.mem_repeated h) (by decide), by decide⟩

theorem strip_labelLine (depth : Nat) (x : Label) :
    p.strip (labelLine true depth x) = p.strip (labelLine false depth x) := by
  have hfront := esc_not_mem_indent depth
  rw [labelLine, labelLine, Pattern.strip_append_of_not_mem hfront,
    Pattern.strip_append_of_not_mem hfront, if_pos rfl, if_neg Bool.false_ne_true,
    Level.strip_paint]

theorem strip_heading (d : Document) : p.strip (heading true d) = p.strip (heading false d) :=
  Ansi.Style.strip_paint _ _

mutual

theorem map_strip_treeLines (filter : Level) (depth : Nat) (t : Tree) :
    (treeLines filter true depth t).map p.strip = (treeLines filter false depth t).map p.strip := by
  match t with
  | .node x ts =>
    simp only [treeLines, List.map_cons, List.map_append, strip_labelLine,
      map_strip_forestLines filter (depth + 1) ts]

theorem map_strip_forestLines (filter : Level) (depth : Nat) (ts : List Tree) :
    (forestLines filter true depth ts).map p.strip =
      (forestLines filter false depth ts).map p.strip := by
  match ts with
  | [] => rfl
  | t :: ts =>
    rw [forestLines, forestLines, List.map_append, List.map_append,
      map_strip_forestLines filter depth ts]
    split
    · rw [map_strip_treeLines filter depth t]
    · rfl

end

end Outline

namespace Document

theorem map_strip_outline (p : Pattern) (d : Document) :
    (d.outline true).map p.strip = (d.outline false).map p.strip := by
  simp only [outline, List.map_append, List.map_cons, List.map_nil, List.map_flatMap,
    Outline.strip_heading, Outline.map_strip_treeLines]

/-- With and without color a report has as many lines, and line by line they are equal without the
escape sequences that end with a letter, and without those that a console takes out. -/
theorem outline_colored (d : Document) :
    (d.outline true).length = (d.outline false).length ∧
      (d.outline true).map Pattern.letters.strip = (d.outline false).map Pattern.letters.strip ∧
      (d.outline true).map Ansi.strip = (d.outline false).map Ansi.strip := by
  have hmap (p : Pattern) := map_strip_outline p d
  have hconsole : Pattern.console.strip = Ansi.strip := funext Pattern.strip_console
  refine ⟨?_, hmap .letters, hconsole ▸ hmap .console⟩
  have hlength := congrArg List.length (hmap .letters)
  rwa [List.length_map, List.length_map] at hlength

end Document

end ReportTree
