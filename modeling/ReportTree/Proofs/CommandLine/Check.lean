import ReportTree.CommandLine.Answer
import ReportTree.Proofs.Report.RoundTrip
import ReportTree.Proofs.Report.Severity

/-!
# What a check decides

A check looks at the roots of the tabs. A document may hold any levels, so that a severe node can
stand below a root that does not show it; in a document whose trees are dominated none can.

* `check_of_deserialize`: a check of a text that is a report comes to an answer.
* `check_levelReached_iff`: when that answer is that the threshold is reached.
* `not_reached_iff_nodeReaches`: a document with a severe node that a check does not see.
-/

namespace ReportTree.CommandLine

variable {s : Surroundings} {q : Request} {input : Input} {r : Report}

/-- A check of a report answers, with the status that its level calls for. -/
theorem check_of_deserialize (settings : Settings) (color : Bool)
    (hinput : readInput s q.file = .ok input) (hr : Report.deserialize input.text = .ok r) :
    ∃ a, check s settings color q = .ok a ∧
      a.status = checkStatus (reached r.maximumLevel (effective settings q).failOn) := by
  have hread : readReport s q.file = .ok r := by
    rw [readReport_eq hinput, hr]
    rfl
  rw [check, hread]
  exact ⟨_, rfl, rfl⟩

theorem checkStatus_eq_levelReached_iff {b : Bool} :
    checkStatus b = .levelReached ↔ b = true := by
  cases b <;> decide

/-- A check answers that the threshold is reached exactly if the threshold is none or the root of a
tab is severe enough. Then some node is; and where every node is at least as severe as its
children, some node being severe enough means that the threshold is reached. -/
theorem check_levelReached_iff (settings : Settings) (color : Bool)
    (hinput : readInput s q.file = .ok input) (hr : Report.deserialize input.text = .ok r) :
    ∃ a, check s settings color q = .ok a ∧
      (a.status = .levelReached ↔ (effective settings q).failOn = .none ∨
        r.document.RootReaches (effective settings q).failOn) ∧
      (a.status = .levelReached → (effective settings q).failOn = .none ∨
        r.document.NodeReaches (effective settings q).failOn) ∧
      (r.document.Dominated → (a.status = .levelReached ↔ (effective settings q).failOn = .none ∨
        r.document.NodeReaches (effective settings q).failOn)) := by
  obtain ⟨a, ha, hstatus⟩ := check_of_deserialize settings color hinput hr
  have hiff : a.status = .levelReached ↔ (effective settings q).failOn = .none ∨
      r.document.RootReaches (effective settings q).failOn := by
    rw [hstatus, checkStatus_eq_levelReached_iff, reached, ← Report.maximumLevel_document,
      Document.maximumLevel_atLeast_iff]
  refine ⟨a, ha, hiff, fun h => ?_, fun hd => ?_⟩
  · exact (hiff.1 h).imp_right Document.RootReaches.nodeReaches
  · rw [hiff, hd.rootReaches_iff]

/-- A check of the standard input for warnings answers that there is something as severe, as an
error below a root that shows it is. -/
theorem check_levelReached_of_error :
    ∃ s q input r settings a, readInput s q.file = .ok input ∧
      Report.deserialize input.text = .ok r ∧ r.document.Dominated ∧
      check s settings false q = .ok a ∧ a.status = .levelReached := by
  let below : Tree := .node { name := "Broken", level := .error } []
  let tree : Tree := .node { name := "Build", level := .error } [below]
  let d : Document := { title := "Build", mainText := "", tabs := [{ tree := tree }] }
  let s : Surroundings :=
    { disk := fun _ => .missing
      place := "/"
      input := Utf8.encodeLoose (d.serialize .compact)
      environment := [] }
  let q : Request := { file := standardInput, failOn := some .warn }
  have hinput : readInput s q.file = .ok ⟨d.serialize .compact, "<stdin>", "stdin"⟩ := by
    have hdecode : Utf8.decode s.input = .ok (d.serialize .compact) := by decide +kernel
    rw [readInput, if_pos rfl, hdecode]
  have hr : Report.deserialize (d.serialize .compact) = .ok (Report.ofDocument d) :=
    Report.deserialize_document d Json.Layout.blank_compact
  have hbelow : below.Dominated :=
    .node (fun _ h => absurd h List.not_mem_nil) fun _ h => absurd h List.not_mem_nil
  have htree : tree.Dominated :=
    .node (fun t ht => List.mem_singleton.1 ht ▸ rfl) fun t ht => List.mem_singleton.1 ht ▸ hbelow
  have hd : (Report.ofDocument d).document.Dominated := by
    rw [Report.document_ofDocument]
    exact fun t ht => List.mem_singleton.1 ht ▸ htree
  obtain ⟨a, ha, -, -, hiff⟩ :=
    check_levelReached_iff (Settings.Layer.settings {}) false hinput hr
  refine ⟨s, q, _, _, _, a, hinput, hr, hd, ha, (hiff hd).2 (.inr ?_)⟩
  rw [Report.document_ofDocument]
  exact ⟨_, .head _, _, .tail _ (.head _), rfl⟩

/-- An error below a root without a level is not seen. -/
theorem not_reached_iff_nodeReaches :
    ¬∀ (t : Text) (r : Report) (l : Level), Report.deserialize t = .ok r →
      (reached r.maximumLevel l = true ↔ l = .none ∨ r.document.NodeReaches l) := by
  let tree : Tree := .node { name := "Build" } [.node { name := "Broken", level := .error } []]
  let d : Document := { title := "Build", mainText := "", tabs := [{ tree := tree }] }
  have hread : Report.deserialize (d.serialize .compact) = .ok (Report.ofDocument d) :=
    Report.deserialize_document d Json.Layout.blank_compact
  intro h
  have hnode : (Report.ofDocument d).document.NodeReaches .error := by
    rw [Report.document_ofDocument]
    exact ⟨_, .head _, _, .tail _ (.head _), rfl⟩
  have hreached := (h _ _ .error hread).2 (.inr hnode)
  rw [reached, ← Report.maximumLevel_document, Report.document_ofDocument] at hreached
  cases hreached

end ReportTree.CommandLine
