import ReportTree.CommandLine.Program
import ReportTree.Proofs.Json.LongNumber
import ReportTree.Proofs.Report.Acceptance

/-!
# Inputs that are no report

A text that is not read as a report is a format error, which a command reports with a status of its
own. The one exception is an integer of more digits than are read: it ends the program as it is, and
the shell then sees the number that stands for a level that was reached.

* `Report.deserialize_eq_longNumber_iff`: the texts that are neither read nor a format error.
* `ending_of_undecodable`: how a check of an undecodable text ends.
* `check_reports_undecodable_iff`: a check reports every other text that is no report.
-/

namespace ReportTree

/-- An error is no format error only if it is about a long number. -/
theorem DecodeError.isFormat_eq_false_iff {e : DecodeError} :
    e.isFormat = false ↔ ∃ digits, e = .object (.longNumber digits) := by
  cases e with
  | object e => cases e <;> simp [isFormat]
  | mismatch _ => simp [isFormat]

theorem readObject_eq_longNumber_iff {t : Text} {digits : Nat} :
    readObject t = .error (.longNumber digits) ↔ Json.MeetsLongNumber t digits := by
  rw [← Json.read_eq_longNumber_iff, readObject]
  split <;> simp_all

theorem Report.deserialize_eq_longNumber_iff {t : Text} {digits : Nat} :
    deserialize t = .error (.object (.longNumber digits)) ↔ Json.MeetsLongNumber t digits := by
  rw [← readObject_eq_longNumber_iff, deserialize, Document.deserialize]
  split
  · next e he => simp [he, Except.map]
  · next fields hfields =>
    rw [hfields]
    split <;> simp [Except.map]

/-- Reading ends in a report or in a format error, unless the text meets a long integer. -/
theorem Report.deserialize_ok_or_isFormat_iff {t : Text} :
    ((∃ r, deserialize t = .ok r) ∨ ∃ e, deserialize t = .error e ∧ e.isFormat = true) ↔
      ¬∃ digits, Json.MeetsLongNumber t digits := by
  simp only [← deserialize_eq_longNumber_iff]
  cases deserialize t with
  | ok r => simp
  | error e =>
    simp only [reduceCtorEq, exists_false, false_or, Except.error.injEq, exists_eq_left',
      ← DecodeError.isFormat_eq_false_iff, Bool.not_eq_false]

namespace CommandLine

variable {s : Surroundings} {common : Common} {words : List Text} {q : Request} {input : Input}
  {loaded : Settings.Loaded} {e : DecodeError}

theorem readReport_of_undecodable (hinput : readInput s q.file = .ok input)
    (he : Report.deserialize input.text = .error e) :
    readReport s q.file = .error (.ofDecodeError input.name e) := by
  rw [readReport_eq hinput, he]
  rfl

/-- A check of a text that is no report ends as the error asks for. -/
theorem ending_of_undecodable (setup : Log.Setup)
    (hload : Settings.load s.disk s.place common.configs common.ignoreFound = .ok loaded)
    (hq : readRequest .check words = .ok q) (hinput : readInput s q.file = .ok input)
    (he : Report.deserialize input.text = .error e) :
    ∃ c : Console, runWith s setup common (some (.check, words)) =
      (Halt.ofDecodeError input.name e).finish c := by
  have hread := readReport_of_undecodable hinput he
  have hserve : serve s loaded.layer.settings setup.color (some (.check, words)) =
      .error (.ofDecodeError input.name e) := by
    rw [serve, hq]
    show check s loaded.layer.settings setup.color q = _
    rw [check, hread]
    rfl
  rw [runWith, hload]
  simp only [hserve]
  exact ⟨_, rfl⟩

theorem ending_of_isFormat (setup : Log.Setup)
    (hload : Settings.load s.disk s.place common.configs common.ignoreFound = .ok loaded)
    (hq : readRequest .check words = .ok q) (hinput : readInput s q.file = .ok input)
    (he : Report.deserialize input.text = .error e) (hformat : e.isFormat = true) :
    readReport s q.file = .error (.problem (.undecodable input.name e)) ∧
      (runWith s setup common (some (.check, words))).ending = .status .formatError := by
  have hhalt : Halt.ofDecodeError input.name e = .problem (.undecodable input.name e) := by
    cases e with
    | object e =>
      cases e with
      | longNumber digits => cases hformat
      | malformed | notAnObject => rfl
    | mismatch _ => rfl
  obtain ⟨c, hc⟩ := ending_of_undecodable setup hload hq hinput he
  refine ⟨hhalt ▸ readReport_of_undecodable hinput he, ?_⟩
  rw [hc, hhalt]
  rfl

/-- Every text is read as a report or is a format error, unless it meets a long integer. A check
reports the one, and ends with the status for it; the other ends the program as it is, and the shell
sees the number of a level that was reached. -/
theorem check_reports_undecodable_iff (setup : Log.Setup)
    (hload : Settings.load s.disk s.place common.configs common.ignoreFound = .ok loaded)
    (hq : readRequest .check words = .ok q) (hinput : readInput s q.file = .ok input) :
    (∀ t, ((∃ r, Report.deserialize t = .ok r) ∨
        ∃ e, Report.deserialize t = .error e ∧ e.isFormat = true) ↔
      ¬∃ digits, Json.MeetsLongNumber t digits) ∧
    (∀ e, Report.deserialize input.text = .error e →
      ((readReport s q.file = .error (.problem (.undecodable input.name e)) ∧
        (runWith s setup common (some (.check, words))).ending = .status .formatError) ↔
      ¬∃ digits, Json.MeetsLongNumber input.text digits)) ∧
    ∀ digits, Json.MeetsLongNumber input.text digits → Numeral.digitLimit < digits ∧
      (runWith s setup common (some (.check, words))).ending = .crash (.longNumber digits) ∧
      (runWith s setup common (some (.check, words))).ending.number =
        ExitStatus.levelReached.number := by
  have hcrash : ∀ digits, Json.MeetsLongNumber input.text digits →
      (runWith s setup common (some (.check, words))).ending = .crash (.longNumber digits) := by
    intro digits h
    obtain ⟨c, hc⟩ := ending_of_undecodable setup hload hq hinput
      (Report.deserialize_eq_longNumber_iff.2 h)
    rw [hc]
    rfl
  refine ⟨fun t => Report.deserialize_ok_or_isFormat_iff, fun e he => ⟨?_, fun h => ?_⟩,
    fun digits h => ⟨h.digitLimit_lt, hcrash digits h, ?_⟩⟩
  · rintro ⟨-, hending⟩ ⟨digits, h⟩
    rw [hcrash digits h] at hending
    cases hending
  · rcases Report.deserialize_ok_or_isFormat_iff.2 h with ⟨r, hr⟩ | ⟨_, he', hformat⟩
    · rw [he] at hr
      cases hr
    · rw [he] at he'
      cases he'
      exact ending_of_isFormat setup hload hq hinput he hformat
  · rw [hcrash digits h]
    rfl

/-- A check of the standard input reports an object without fields. -/
theorem check_reports_empty_object :
    ∃ s common words q input loaded, ∃ setup : Log.Setup,
      Settings.load s.disk s.place common.configs common.ignoreFound = .ok loaded ∧
      readRequest .check words = .ok q ∧ readInput s q.file = .ok input ∧
      (¬∃ digits, Json.MeetsLongNumber input.text digits) ∧
      (runWith s setup common (some (.check, words))).ending = .status .formatError := by
  let s : Surroundings :=
    { disk := fun _ => .missing, place := "/", input := [0x7B, 0x7D], environment := [] }
  let common : Common := { ignoreFound := true }
  let setup : Log.Setup := { threshold := Log.error, color := false }
  obtain ⟨loaded, hload⟩ :
      ∃ l, Settings.load s.disk s.place common.configs common.ignoreFound = .ok l := ⟨_, rfl⟩
  have hq : readRequest .check ["-"] = .ok { file := "-" } := rfl
  have hinput : readInput s standardInput = .ok ⟨"\x7b\x7d", "<stdin>", "stdin"⟩ := by
    have hdecode : Utf8.decode s.input = .ok "\x7b\x7d" := by decide +kernel
    rw [readInput, if_pos rfl, hdecode]
  obtain ⟨e, he⟩ : ∃ e, Report.deserialize "\x7b\x7d" = .error (.mismatch e) := by
    have hread : Json.read "\x7b\x7d" = .ok (.object []) :=
      Json.read_write (v := .object []) Json.Layout.blank_compact rfl
    rw [Report.deserialize, Document.deserialize, readObject, hread]
    exact ⟨_, rfl⟩
  have hshort : ¬∃ digits, Json.MeetsLongNumber "\x7b\x7d" digits := by
    rintro ⟨digits, h⟩
    rw [Report.deserialize_eq_longNumber_iff.2 h] at he
    cases he
  refine ⟨s, common, ["-"], _, _, loaded, setup, hload, hq, hinput, hshort, ?_⟩
  exact (((check_reports_undecodable_iff setup hload hq hinput).2.1 _ he).2 hshort).2

/-- An integer of 4301 digits is neither a report nor a format error. -/
theorem not_deserialize_decodes_or_reports :
    ¬∀ t, (∃ r, Report.deserialize t = .ok r) ∨
      ∃ e, Report.deserialize t = .error e ∧ e.isFormat = true := by
  intro h
  have hlong := Report.deserialize_eq_longNumber_iff.2
    (Json.meetsLongNumber_replicate (Nat.le_refl Numeral.digitLimit))
  rcases h (List.replicate (Numeral.digitLimit + 1) (.scalar '1')) with ⟨r, hr⟩ | ⟨e, he, hformat⟩
  · rw [hlong] at hr
    cases hr
  · rw [hlong] at he
    cases he
    cases hformat

end CommandLine

end ReportTree
