import ReportTree.CommandLine.Input
import ReportTree.Proofs.Report.LineBreak

/-!
# Where a text is read from

A file's line breaks are unified when it is read; the standard input is read as it is. What becomes
of a text is the same for both.

* `Surroundings.Holds`: what a program finds where it is asked to read.
* `readInput_of_holds`, `readReport_of_holds`: what it reads there.
* `readInput_agrees`: the reports that are read or built from a file and from the standard input.
-/

namespace ReportTree.CommandLine

/-- A program that is asked for `file` finds `bytes` there. -/
def Surroundings.Holds (s : Surroundings) (file : Text) (bytes : List UInt8) : Prop :=
  if file = standardInput then s.input = bytes else s.disk (Path.normal file) = .file bytes

/-- Nothing is there but a standard input. -/
def Surroundings.piped (input : List UInt8) : Surroundings where
  disk := fun _ => .missing
  place := "/"
  input := input
  environment := []

theorem Surroundings.holds_piped (input : List UInt8) :
    (piped input).Holds standardInput input := by
  rw [Holds, if_pos rfl, piped]

section

variable {s : Surroundings} {file : Text} {bytes : List UInt8} {t : Text}

theorem readInput_standardInput (hheld : s.Holds standardInput bytes)
    (ht : Utf8.decode bytes = .ok t) : readInput s standardInput = .ok ⟨t, "<stdin>", "stdin"⟩ := by
  rw [Surroundings.Holds, if_pos rfl] at hheld
  rw [readInput, if_pos rfl, hheld, ht]

theorem readInput_file (hfile : file ≠ standardInput) (hheld : s.Holds file bytes)
    (ht : Utf8.decode bytes = .ok t) :
    readInput s file = .ok ⟨t.unifyNewlines, file, Path.stem (Path.normal file)⟩ := by
  rw [Surroundings.Holds, if_neg hfile] at hheld
  have htext : s.disk.readText (Path.normal file) = .ok t.unifyNewlines := by
    rw [Disk.readText, hheld]
    simp only [ht]
  rw [readInput, if_neg hfile]
  simp only [htext]

theorem readInput_of_holds (hheld : s.Holds file bytes) (ht : Utf8.decode bytes = .ok t) :
    ∃ input, readInput s file = .ok input ∧ (input.text = t ∨ input.text = t.unifyNewlines) := by
  by_cases hfile : file = standardInput
  · subst hfile
    exact ⟨_, readInput_standardInput hheld ht, .inl rfl⟩
  · exact ⟨_, readInput_file hfile hheld ht, .inr rfl⟩

/-- A report is read from its bytes, wherever they stand. -/
theorem readReport_of_holds {r : Report} (hheld : s.Holds file bytes)
    (ht : Utf8.decode bytes = .ok t) (hr : Report.deserialize t = .ok r) :
    readReport s file = .ok r := by
  obtain ⟨input, hinput, htext⟩ := readInput_of_holds hheld ht
  have hr : Report.deserialize input.text = .ok r := by
    rcases htext with h | h
    · rw [h, hr]
    · rw [h, Report.deserialize_unifyNewlines, hr]
      rfl
  rw [readReport_eq hinput, hr]
  rfl

end

/-- Bytes that are a text give the same reports as a file and as the standard input. Either both are
read as one report, or the same is wrong with both, but for the line breaks in what the error quotes
of the text; and the outline or the paths that they hold make the same report. -/
theorem readInput_agrees {s s' : Surroundings} {file : Text} {bytes : List UInt8} {t : Text}
    (hfile : file ≠ standardInput) (hheld : s.Holds file bytes)
    (hheld' : s'.Holds standardInput bytes) (ht : Utf8.decode bytes = .ok t) :
    ∃ x y, readInput s file = .ok x ∧ readInput s' standardInput = .ok y ∧
      x.text = t.unifyNewlines ∧ y.text = t ∧
      ((∃ r, Report.deserialize x.text = .ok r ∧ Report.deserialize y.text = .ok r) ∨
        ∃ e, Report.deserialize x.text = .error e.unified ∧ Report.deserialize y.text = .error e ∧
          e.unified.isFormat = e.isFormat) ∧
      (∀ title tab mainText, Report.ofOutline x.text title tab mainText =
        Report.ofOutline y.text title tab mainText) ∧
      ∀ title tab folder icon mainText, Report.ofPaths x.text title tab folder icon mainText =
        Report.ofPaths y.text title tab folder icon mainText := by
  refine ⟨_, _, readInput_file hfile hheld ht, readInput_standardInput hheld' ht, rfl, rfl, ?_,
    Report.ofOutline_unifyNewlines t, Report.ofPaths_unifyNewlines t⟩
  rw [Report.deserialize_unifyNewlines]
  cases hr : Report.deserialize t with
  | ok r => exact .inl ⟨r, rfl, rfl⟩
  | error e => exact .inr ⟨e, rfl, rfl, e.isFormat_unified⟩

/-- A string that is broken in all three ways. -/
def brokenString : Text := "\"Build\r\nTests\rDocs\n\""

/-- The broken string is no report, and what is left of the text where it goes wrong is not the same
for the file. As an outline it has the same lines. -/
theorem readInput_agrees_brokenString :
    ∃ s s' : Surroundings, ∃ bytes x y, ("notes" : Text) ≠ standardInput ∧ s.Holds "notes" bytes ∧
      s'.Holds standardInput bytes ∧ Utf8.decode bytes = .ok brokenString ∧
      readInput s "notes" = .ok x ∧ readInput s' standardInput = .ok y ∧
      x.text = "\"Build\nTests\nDocs\n\"" ∧ y.text = brokenString ∧
      (∃ e, Report.deserialize x.text = .error e.unified ∧ Report.deserialize y.text = .error e ∧
        e.unified ≠ e ∧ e.unified.isFormat = e.isFormat) ∧
      Report.ofOutline x.text "Notes" "All" [] = Report.ofOutline y.text "Notes" "All" [] := by
  let s := { Surroundings.piped [] with disk := fun _ => .file (Utf8.encodeLoose brokenString) }
  have hfile : ("notes" : Text) ≠ standardInput := by decide
  have hheld : s.Holds "notes" (Utf8.encodeLoose brokenString) := by
    rw [Surroundings.Holds, if_neg hfile]
  have ht : Utf8.decode (Utf8.encodeLoose brokenString) = .ok brokenString := by decide +kernel
  have hlines : brokenString.unifyNewlines = "\"Build\nTests\nDocs\n\"" := by decide
  have herror : Report.deserialize brokenString = .error (.object
      (.malformed brokenString "\r\nTests\rDocs\n\"" (.string .controlCharacter))) := by
    have hfault : (match Json.read brokenString with | .error e => some e | .ok _ => none) =
        some (.fault (.string .controlCharacter) "\r\nTests\rDocs\n\"") := by decide +kernel
    split at hfault
    · next e he =>
      cases hfault
      rw [Report.deserialize, Document.deserialize, readObject, he]
      rfl
    · cases hfault
  obtain ⟨x, y, hx, hy, htx, hty, hread, houtline, -⟩ :=
    readInput_agrees hfile hheld (Surroundings.holds_piped _) ht
  obtain ⟨r, -, hr⟩ | ⟨e, hx', hy', hformat⟩ := hread
  · rw [hty, herror] at hr
    cases hr
  · have he : _ = e := Except.error.inj (herror.symm.trans (hty ▸ hy'))
    subst he
    refine ⟨s, _, _, x, y, hfile, hheld, Surroundings.holds_piped _, ht, hx, hy, htx.trans hlines,
      hty, ⟨_, hx', hy', fun h => ?_, hformat⟩, houtline _ _ _⟩
    rw [DecodeError.unified, ObjectError.unified, hlines] at h
    injection h with h
    injection h with h
    exact absurd h (by decide)

end ReportTree.CommandLine
