import ReportTree.CommandLine.Program
import ReportTree.Proofs.CommandLine.Reading
import ReportTree.Proofs.Json.Legible

/-!
# What a display prints

A report that is displayed as a document is printed as its text, with a line break at the end. The
text is legible, so that a console without color takes nothing out of it; and it is read again as
the report it was written for, from a file as well as from the standard input.

* `DisplayCall`: words that ask for the report of a file as a document.
* `DisplayCall.run_of_layout`, `DisplayCall.run_of_widthError`: what is printed for them, and how it
  ends.
* `DisplayCall.prints_document`: the text of the report is printed, unless the width of the
  indentation is no word; printed for that text again, it is the same.
-/

namespace ReportTree

open Json (Layout)

theorem Document.legible_serialize (d : Document) {layout : Layout} (hl : layout.Legible) :
    (d.serialize layout).Legible :=
  Json.legible_write hl _

namespace Report

theorem legible_dump (r : Report) {layout : Layout} (hl : layout.Legible) :
    (r.dump layout).Legible :=
  (r.document.legible_serialize hl).append (by decide)

/-- A report that was written to a stream is read with the pairs in its texts joined. -/
theorem deserialize_dump (r : Report) {layout : Layout} (hl : layout.Blank) :
    deserialize (r.dump layout) = .ok (ofDocument r.document.joined) := by
  have hspace : ∀ c ∈ ("\n" : Text), Json.isSpace c = true := by decide
  rw [deserialize, dump, serialize, Document.deserialize_serialize_append _ hl hspace]
  rfl

/-- Joining the pairs of a report changes nothing of what a stream gets. -/
theorem dump_joined (r : Report) (layout : Layout) :
    (ofDocument r.document.joined).dump layout = r.dump layout := by
  rw [dump, serialize, document_ofDocument, Document.serialize_joined, dump, serialize]

end Report

namespace CommandLine

/-! ## Calls -/

/-- Words that ask for the report of a file as a document, in surroundings where neither the logging
that is asked for nor a settings file stands in the way. Color may be asked for in any way. -/
structure DisplayCall (s : Surroundings) (words : List Text) where
  common : Common
  rest : List Text
  arguments : List Text
  usual : Int
  asked : Option Int
  loaded : Settings.Loaded
  request : Request
  readCommon_eq : readCommon s.disk words = .ok (common, rest)
  readCommand_eq : readCommand s.disk rest = .ok (some (.display, arguments))
  threshold_eq : Preference.threshold common.verbose common.quiet = .ok usual
  logLevel_eq : Log.ofUserText? (s.environment.logLevel?.getD []) = .ok asked
  load_eq : Settings.load s.disk s.place common.configs common.ignoreFound = .ok loaded
  readRequest_eq : readRequest .display arguments = .ok request
  format_eq : request.format = some .json

/-! ## Printing -/

/-- A legible line is printed as it is, in color and without. -/
theorem printLines_of_legible (c : Console) {line : Text} (h : (line ++ "\n").Legible) :
    printLines c [line] = ({ c with out := c.out ++ (line ++ "\n") }, none) := by
  have hshown : c.shown (line ++ "\n") = line ++ "\n" := by
    rw [Console.shown, h.strip_eq, ite_self]
  simp only [printLines, hshown, h.unencodable?_eq_none]

/-! ## Runs -/

namespace DisplayCall

variable {s : Surroundings} {words : List Text} (call : DisplayCall s words)

/-- How logging and color are set up. -/
def setup : Log.Setup where
  threshold := call.asked.getD call.usual
  color := Preference.color
    (some (if call.common.noColor then .never else call.common.color.getD .auto)) none
    s.environment s.terminal

/-- Color does not keep the command from being served. -/
theorem setupFor_eq : setupFor s call.common = .ok call.setup := by
  rw [setupFor, call.threshold_eq, call.logLevel_eq]
  rfl

/-- The indentation that is asked for, by the words or by the settings. -/
def indent : Option Int := (effective call.loaded.layer.settings call.request).jsonIndent

/-- The program ends as the command does, with nothing printed before that. -/
theorem run_eq :
    ∃ console : Console, console.out = [] ∧
      (∀ h, display s call.loaded.layer.settings call.setup.color call.request = .error h →
        run s words = h.finish console) ∧
      ∀ a, display s call.loaded.layer.settings call.setup.color call.request = .ok a →
        run s words = a.finish console call.setup := by
  have hrun : run s words =
      runWith s call.setup call.common (some (.display, call.arguments)) := by
    rw [run, call.readCommon_eq]
    simp only [Except.mapError, bind, Except.bind, call.readCommand_eq, call.setupFor_eq, pure,
      Except.pure]
  have hserve : serve s call.loaded.layer.settings call.setup.color
      (some (.display, call.arguments)) =
      display s call.loaded.layer.settings call.setup.color call.request := by
    rw [serve, call.readRequest_eq]
    rfl
  rw [hrun, runWith, call.load_eq]
  refine ⟨write { color := call.setup.color } (call.setup.write call.loaded.log), rfl, ?_, ?_⟩
  · intro h hdisplay
    simp only [hserve, hdisplay]
  · intro a hdisplay
    simp only [hserve, hdisplay]

section

variable {r : Report} (hread : readReport s call.request.file = .ok r)

include hread

theorem display_eq :
    display s call.loaded.layer.settings call.setup.color call.request =
      ((Json.Layout.ofIndent call.indent).mapError fun e => .crash (.width e)).map fun layout =>
        { lines := [r.serialize layout] } := by
  have hjson : call.request.formatOr .text = .json := by
    rw [Request.formatOr, call.format_eq]
    rfl
  rw [display, hread, hjson, indent]
  simp only [bind, Except.bind, reportLines, Settings.jsonLayout]
  cases Json.Layout.ofIndent _ <;> rfl

/-- The text of the report is printed. -/
theorem run_of_layout {layout : Json.Layout} (hl : Json.Layout.ofIndent call.indent = .ok layout) :
    (run s words).out = r.dump layout ∧ (run s words).ending = .status .success := by
  obtain ⟨console, hout, -, hok⟩ := call.run_eq
  have hdisplay := call.display_eq hread
  rw [hl] at hdisplay
  have hlegible := r.legible_dump (Json.Layout.legible_of_ofIndent hl)
  rw [hok _ hdisplay]
  simp only [Answer.finish, printLines_of_legible _ hlegible]
  exact ⟨congrArg (· ++ r.dump layout) hout, rfl⟩

/-- Where the indentation is refused, nothing is printed. -/
theorem run_of_widthError {e : Json.WidthError} (he : Json.Layout.ofIndent call.indent = .error e) :
    (run s words).out = [] ∧ (run s words).ending = .crash (.width e) := by
  obtain ⟨console, hout, herror, -⟩ := call.run_eq
  have hdisplay := call.display_eq hread
  rw [he] at hdisplay
  rw [herror _ hdisplay]
  exact ⟨hout, rfl⟩

end

/-- A report is printed as its text with a line break at the end, whether in color or not: no escape
sequence is in it. What is printed is printed once more for a request of the same indentation that
finds it as a file or as the standard input. This holds without an indentation width and for every
width that is a word of 64 bits; any other is refused, and nothing is printed. -/
theorem prints_document {bytes : List UInt8} {t : Text} {r : Report}
    (hheld : s.Holds call.request.file bytes) (ht : Utf8.decode bytes = .ok t)
    (hr : Report.deserialize t = .ok r) :
    (∃ n, call.indent = some n ∧ ¬Json.IsWord n ∧ (run s words).out = [] ∧
      (run s words).ending = .crash (.width .unbounded)) ∨
    ∃ layout, Json.Layout.ofIndent call.indent = .ok layout ∧
      (run s words).out = r.dump layout ∧ (run s words).ending = .status .success ∧
      Ansi.strip (run s words).out = (run s words).out ∧
      ∀ {s' : Surroundings} {words' : List Text} (again : DisplayCall s' words'),
        again.indent = call.indent →
        s'.Holds again.request.file (Utf8.encodeLoose (run s words).out) →
        (run s' words').out = (run s words).out := by
  have hread := readReport_of_holds hheld ht hr
  cases hl : Json.Layout.ofIndent call.indent with
  | error e =>
    obtain ⟨n, hn, hword⟩ := Json.Layout.exists_of_ofIndent_eq_error hl
    exact .inl ⟨n, hn, hword, call.run_of_widthError hread hl⟩
  | ok layout =>
    obtain ⟨hout, hending⟩ := call.run_of_layout hread hl
    have hlegible := r.legible_dump (Json.Layout.legible_of_ofIndent hl)
    refine .inr ⟨layout, rfl, hout, hending, hout ▸ hlegible.strip_eq, ?_⟩
    intro s' words' again hindent hheld'
    rw [hout] at hheld' ⊢
    have hread' := readReport_of_holds hheld' hlegible.decode_encodeLoose
      (r.deserialize_dump (Report.blank_of_ofIndent hl))
    rw [(again.run_of_layout hread' (hindent ▸ hl)).1, Report.dump_joined]

/-- A title with an escape sequence is printed in color, and printed without color for that. -/
theorem prints_escape_sequence :
    ∃ s words bytes t r s' words', ∃ (call : DisplayCall s words) (again : DisplayCall s' words'),
      s.Holds call.request.file bytes ∧ Utf8.decode bytes = .ok t ∧
      Report.deserialize t = .ok r ∧ again.indent = call.indent ∧
      s'.Holds again.request.file (Utf8.encodeLoose (run s words).out) ∧
      call.setup.color = true ∧ again.setup.color = false ∧
      (run s words).out = r.dump (.spaces 2) ∧ (run s' words').out = (run s words).out := by
  have hcommon :
      readCommon (fun _ => .missing) ["--color", "always", "show", "-", "--format", "json"] =
        .ok ({ color := some .always }, ["show", "-", "--format", "json"]) := rfl
  have hcommon' : readCommon (fun _ => .missing) ["--no-color", "show", "-", "--format", "json"] =
      .ok ({ noColor := true }, ["show", "-", "--format", "json"]) := rfl
  have hcommand : readCommand (fun _ => .missing) ["show", "-", "--format", "json"] =
      .ok (some (.display, ["-", "--format", "json"])) := rfl
  have hrequest : readRequest .display ["-", "--format", "json"] =
      .ok { file := "-", format := some .json } := rfl
  obtain ⟨loaded, hload, hindent⟩ :
      ∃ l, Settings.load (fun _ => .missing) "/" [] false = .ok l ∧
        (effective l.layer.settings { file := "-", format := some .json }).jsonIndent = some 2 :=
    ⟨_, rfl, rfl⟩
  let d : Document := { title := Ansi.switch 31 ++ "Build", mainText := "" }
  let call (input : List UInt8) :
      DisplayCall (.piped input) ["--color", "always", "show", "-", "--format", "json"] :=
    ⟨_, _, _, _, _, loaded, _, hcommon, hcommand, rfl, rfl, hload, hrequest, rfl⟩
  let again (input : List UInt8) :
      DisplayCall (.piped input) ["--no-color", "show", "-", "--format", "json"] :=
    ⟨_, _, _, _, _, loaded, _, hcommon', hcommand, rfl, rfl, hload, hrequest, rfl⟩
  have ht : Utf8.decode (Utf8.encodeLoose (d.serialize .compact)) = .ok (d.serialize .compact) :=
    (d.legible_serialize Json.Layout.legible_compact).decode_encodeLoose
  have hr := Report.deserialize_document d Json.Layout.blank_compact
  have hwidth : Json.Layout.ofIndent (some 2) = .ok (.spaces 2) := rfl
  rw [← hindent] at hwidth
  obtain ⟨n, hn, hword, -⟩ | ⟨layout, hl, hout, -, -, hagain⟩ :=
    (call _).prints_document (Surroundings.holds_piped _) ht hr
  · obtain rfl := Option.some_inj.1 (hindent.symm.trans hn)
    exact absurd (by decide) hword
  · obtain rfl := Except.ok.inj (hwidth.symm.trans hl)
    exact ⟨_, _, _, _, _, _, _, call _, again _, Surroundings.holds_piped _, ht, hr, rfl,
      Surroundings.holds_piped _, rfl, rfl, hout, hagain (again _) rfl (Surroundings.holds_piped _)⟩

/-- With an indentation width that is no word, what is printed is no text of the report. -/
theorem not_prints_document_of_no_word :
    ∃ s, ∃ call : DisplayCall s
        ["show", "-", "--format", "json", "--indent", "100000000000000000000"],
      ∃ bytes t r, s.Holds call.request.file bytes ∧ Utf8.decode bytes = .ok t ∧
        Report.deserialize t = .ok r ∧
        ∀ layout, (run s ["show", "-", "--format", "json", "--indent", "100000000000000000000"]).out ≠
          r.dump layout := by
  have hcommon : readCommon (fun _ => .missing)
      ["show", "-", "--format", "json", "--indent", "100000000000000000000"] =
        .ok ({}, ["show", "-", "--format", "json", "--indent", "100000000000000000000"]) := rfl
  have hcommand : readCommand (fun _ => .missing)
      ["show", "-", "--format", "json", "--indent", "100000000000000000000"] =
        .ok (some (.display, ["-", "--format", "json", "--indent", "100000000000000000000"])) :=
    rfl
  have hrequest : readRequest .display
      ["-", "--format", "json", "--indent", "100000000000000000000"] =
        .ok { file := "-", format := some .json, indent := some 100000000000000000000 } := rfl
  obtain ⟨loaded, hload⟩ : ∃ l, Settings.load (fun _ => .missing) "/" [] false = .ok l := ⟨_, rfl⟩
  let call (input : List UInt8) : DisplayCall (.piped input)
      ["show", "-", "--format", "json", "--indent", "100000000000000000000"] :=
    ⟨_, _, _, _, _, loaded, _, hcommon, hcommand, rfl, rfl, hload, hrequest, rfl⟩
  let d : Document := { title := "Build", mainText := "" }
  have ht : Utf8.decode (Utf8.encodeLoose (d.serialize .compact)) = .ok (d.serialize .compact) :=
    (d.legible_serialize Json.Layout.legible_compact).decode_encodeLoose
  have hr := Report.deserialize_document d Json.Layout.blank_compact
  have hread := readReport_of_holds (Surroundings.holds_piped _) ht hr
  refine ⟨_, call _, _, _, _, Surroundings.holds_piped _, ht, hr, fun layout h => ?_⟩
  have hout := ((call _).run_of_widthError hread (e := .unbounded) rfl).1
  rw [h, Report.dump] at hout
  exact List.append_ne_nil_of_right_ne_nil _ (by decide) hout

end DisplayCall

end CommandLine

end ReportTree
