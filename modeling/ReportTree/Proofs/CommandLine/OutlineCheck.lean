import ReportTree.Proofs.CommandLine.Check
import ReportTree.Proofs.Report.FromOutline

/-!
# Checking an outline

The level of an outline is that of its most severe line. It is what the root of the tree shows, it
goes through the text of the report, and a check of that text decides by it.

* `Report.maximumLevel_ofOutline_atLeast_iff`: the level of the report of an outline.
* `Document.maximumLevel_joined`: writing and reading keep the level of a document.
* `CommandLine.check_outline_iff`: what a check of the written report decides.
* `CommandLine.not_check_outline_iff_of_no_word`: an indentation width with which no report is
  written.
-/

namespace ReportTree

namespace Tree

mutual

theorem map_snd_listing (t : Tree) (depth : Nat) : (t.listing depth).map Prod.snd = t.preorder := by
  match t with
  | .node x ts => rw [listing, List.map_cons, map_snd_listingAll, preorder]

theorem map_snd_listingAll (ts : List Tree) (depth : Nat) :
    (listingAll depth ts).map Prod.snd = preorderAll ts := by
  match ts with
  | [] => rfl
  | t :: ts => rw [listingAll, List.map_append, map_snd_listing, map_snd_listingAll, preorderAll]

end

theorem label_joined (t : Tree) : t.joined.label = t.label.joined := by
  obtain ⟨x, ts⟩ := t
  rfl

theorem label_settled (t : Tree) : t.settled.label.level = t.severity := by
  obtain ⟨x, ts⟩ := t
  rfl

end Tree

/-- The nodes that lines stand for are as severe as the lines. Those without a name have no
level. -/
theorem Markup.exists_rows_atLeast_iff {l : Level} (hl : l ≠ .none) (last : Nat)
    (lines : List Line) :
    (∃ p ∈ rows last lines, p.2.level.atLeast l = true) ↔
      ∃ line ∈ lines, line.level.atLeast l = true := by
  have hgap : Level.none.atLeast l ≠ true := fun h => hl (Level.none_atLeast_iff.1 h)
  induction lines generalizing last with
  | nil => simp [rows]
  | cons line lines ih =>
    simp only [rows, List.mem_append, List.mem_map, List.mem_cons, or_and_right, exists_or, ih,
      exists_eq_left]
    refine or_iff_right ?_
    rintro ⟨_, ⟨d, -, rfl⟩, h⟩
    exact hgap h

/-- Writing and reading keep the level of a document. -/
theorem Document.maximumLevel_joined (d : Document) : d.joined.maximumLevel = d.maximumLevel := by
  rw [maximumLevel, maximumLevel, joined, List.foldl_map]
  simp only [Tab.joined, Tree.label_joined, Label.joined]

/-- The report of an outline is as severe as the most severe of its lines. -/
theorem Report.maximumLevel_ofOutline_atLeast_iff (markup title tab mainText : Text) (l : Level) :
    (ofOutline markup title tab mainText).maximumLevel.atLeast l = true ↔
      l = .none ∨ ∃ line ∈ markup.lines, line.isBlank = false ∧
        (Markup.Line.read line).level.atLeast l = true := by
  by_cases hl : l = .none
  · subst hl
    simp [Level.atLeast_none]
  obtain ⟨t, hlisting, hdocument⟩ := document_ofOutline markup title tab mainText
  have hroot : Level.none.atLeast l ≠ true := fun h => hl (Level.none_atLeast_iff.1 h)
  have hrows : (∃ x ∈ t.preorder, x.level.atLeast l = true) ↔
      ∃ p ∈ Markup.rows 0 ((markup.lines.filter (!·.isBlank)).map Markup.Line.read),
        p.2.level.atLeast l = true := by
    rw [← t.map_snd_listing 0, hlisting]
    simp only [List.map_cons, List.mem_cons, or_and_right, exists_or, exists_eq_left,
      or_iff_right hroot, List.mem_map, exists_exists_and_eq_and]
  rw [← maximumLevel_document, Document.maximumLevel_atLeast_iff, Document.RootReaches, hdocument]
  simp only [hl, false_or, List.mem_singleton, exists_eq_left]
  show t.settled.label.level.atLeast l = true ↔ _
  rw [Tree.label_settled, Tree.severity_atLeast_iff, or_iff_right hl, hrows,
    Markup.exists_rows_atLeast_iff hl]
  simp [and_assoc]

namespace CommandLine

open Json (Layout)

/-- A report that was made of an outline and written is read back, and a check of it decides that
the threshold is reached if and only if that is none or some line that is not blank is marked with a
level that is severe enough. This holds without an indentation width and for every width that is a
word of 64 bits; any other is refused, and nothing is written. -/
theorem check_outline_iff (markup title tab mainText : Text) (indent : Option Int) (l : Level) :
    (∃ n, indent = some n ∧ ¬Json.IsWord n ∧ Layout.ofIndent indent = .error .unbounded) ∨
    ∃ layout r, Layout.ofIndent indent = .ok layout ∧
      Report.deserialize ((Report.ofOutline markup title tab mainText).serialize layout) = .ok r ∧
      (reached r.maximumLevel l = true ↔ l = .none ∨ ∃ line ∈ markup.lines, line.isBlank = false ∧
        (Markup.Line.read line).level.atLeast l = true) := by
  cases hindent : Layout.ofIndent indent with
  | error e =>
    obtain ⟨n, hn, hword⟩ := Layout.exists_of_ofIndent_eq_error hindent
    exact .inl ⟨n, hn, hword, rfl⟩
  | ok layout =>
    have hread := Report.deserialize_serialize_layout
      (Report.ofOutline markup title tab mainText) (Report.blank_of_ofIndent hindent)
    refine .inr ⟨layout, _, rfl, hread, ?_⟩
    rw [reached, ← Report.maximumLevel_document, Report.document_ofDocument,
      Document.maximumLevel_joined, Report.maximumLevel_document]
    exact Report.maximumLevel_ofOutline_atLeast_iff markup title tab mainText l

/-- With an indentation width that is no word no report is written, so that there is nothing to
check. -/
theorem not_check_outline_iff_of_no_word :
    ¬∃ layout r, Layout.ofIndent (some (-100000000000000000000)) = .ok layout ∧
      Report.deserialize ((Report.ofOutline "x Broken" "Build" "Build" "").serialize layout) = .ok r ∧
      reached r.maximumLevel .error = true := by
  rintro ⟨_, _, h, -⟩
  cases h

end CommandLine

end ReportTree
