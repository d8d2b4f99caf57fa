import ReportTree.Proofs.Json.LineBreak
import ReportTree.Proofs.Report.Acceptance
import ReportTree.Proofs.Text.LineSelection
import ReportTree.Report.Build

/-!
# Reports and kinds of line break

A report comes of a text in three ways: it is read from a document, or built from an outline or from
paths. None of them asks how the lines of the text are broken.

* `Text.lines_unifyNewlines`: a text has the same lines after its line breaks were unified.
* `Report.deserialize_unifyNewlines`: the same report is read, or the same is wrong with the text.
* `Report.ofOutline_unifyNewlines`, `Report.ofPaths_unifyNewlines`: the same report is built.
-/

namespace ReportTree

namespace Text

theorem linesFrom_unifyNewlines (line t : Text) :
    linesFrom line (unifyNewlines t) = linesFrom line t := by
  have hfeed (line t : Text) :
      linesFrom line (.scalar '\n' :: t) = line.reverse :: linesFrom [] t :=
    linesFrom_break (by decide) (fun h => absurd h (by decide)) line
  fun_induction unifyNewlines t generalizing line with
  | case1 => rfl
  | case2 c =>
    split
    · next hc =>
      rw [hc]
      rfl
    · rfl
  | case3 t ih => rw [hfeed, linesFrom_crlf, ih]
  | case4 d t hd ih =>
    have hhead : (d :: t).head? ≠ some (.scalar '\n') := fun h => hd (Option.some_inj.1 h)
    rw [hfeed, linesFrom_break (by decide) fun _ => hhead, ih]
  | case5 c d t hc ih =>
    cases hbreak : c.breaksLine with
    | true => rw [linesFrom_break hbreak fun h => absurd h hc,
        linesFrom_break hbreak fun h => absurd h hc, ih]
    | false => rw [linesFrom_cons hbreak, linesFrom_cons hbreak, ih]

/-- Every line break is one, of whatever kind it is. -/
theorem lines_unifyNewlines (t : Text) : t.unifyNewlines.lines = t.lines :=
  linesFrom_unifyNewlines [] t

end Text

/-! ## Documents -/

/-- The error with the line breaks unified in the text that is no JSON. -/
def ObjectError.unified : ObjectError → ObjectError
  | malformed t rest fault => malformed t.unifyNewlines rest.unifyNewlines fault
  | e => e

/-- The error with the line breaks unified in the text that is no JSON. -/
def DecodeError.unified : DecodeError → DecodeError
  | object e => object e.unified
  | e => e

theorem DecodeError.isFormat_unified (e : DecodeError) : e.unified.isFormat = e.isFormat := by
  cases e with
  | object e => cases e <;> rfl
  | mismatch e => rfl

theorem readObject_unifyNewlines (t : Text) :
    readObject t.unifyNewlines = (readObject t).mapError ObjectError.unified := by
  rw [readObject, readObject, Json.read_unifyNewlines]
  cases Json.read t with
  | ok v => cases v <;> rfl
  | error e => cases e <;> rfl

theorem Document.deserialize_unifyNewlines (t : Text) :
    deserialize t.unifyNewlines = (deserialize t).mapError DecodeError.unified := by
  rw [deserialize, deserialize, readObject_unifyNewlines]
  cases readObject t with
  | error e => rfl
  | ok fields =>
    have hok : (.ok fields : Except ObjectError Wire.Fields).mapError ObjectError.unified =
        .ok fields := rfl
    simp only [hok]
    cases Wire.readDocument fields <;> rfl

namespace Report

/-- A text whose line breaks were unified is read as the same report, or the same is wrong with it at
the same place. -/
theorem deserialize_unifyNewlines (t : Text) :
    deserialize t.unifyNewlines = (deserialize t).mapError DecodeError.unified := by
  rw [deserialize, deserialize, Document.deserialize_unifyNewlines]
  cases Document.deserialize t <;> rfl

theorem ofOutline_unifyNewlines (markup title tab mainText : Text) :
    ofOutline markup.unifyNewlines title tab mainText = ofOutline markup title tab mainText := by
  simp only [ofOutline, Forest.addOutline, Text.lines_unifyNewlines]

theorem ofPaths_unifyNewlines (paths title tab folder file mainText : Text) :
    ofPaths paths.unifyNewlines title tab folder file mainText =
      ofPaths paths title tab folder file mainText := by
  simp only [ofPaths, Forest.addPaths, Text.lines_unifyNewlines]

end Report

end ReportTree
