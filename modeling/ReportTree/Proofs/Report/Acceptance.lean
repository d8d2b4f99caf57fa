import ReportTree.Proofs.Report.RoundTrip

/-!
# Which texts are reports

A text is read as a report exactly when it holds the payload of one, key by key in their order and
value by value, but for the spelling of the level `none`. Every other value is a format error.

* `Wire.canonical_eq_payload_iff`: what the reader makes of a value.
* `Report.deserialize_of_read`: what it makes of a text.
-/

namespace ReportTree

/-- The error says that a text is no report, not that it was too long to be looked at. -/
def DecodeError.isFormat : DecodeError → Bool
  | object (.longNumber _) => false
  | _ => true

/-- A value is read as a document exactly when it is the payload of the document, up to the name
of `none`. -/
theorem Wire.canonical_eq_payload_iff {v : Json} {d : Document} :
    canonical v = payload d ↔ ∃ fields, v = .object fields ∧ readDocument fields = .ok d := by
  simp only [payload, canonical_eq_object_iff, canonicalFields_eq_documentFields_iff]

namespace Document

open Wire (canonical payload canonical_eq_payload_iff readDocument)

variable {t : Text} {v : Json}

theorem deserialize_of_canonical (h : Json.read t = .ok v) {d : Document}
    (hv : canonical v = payload d) : deserialize t = .ok d := by
  obtain ⟨fields, rfl, hd⟩ := canonical_eq_payload_iff.1 hv
  simp only [deserialize, readObject, h, hd]

/-- What is no payload is a format error: it is no object, or its fields do not fit. -/
theorem deserialize_of_not_canonical (h : Json.read t = .ok v)
    (hv : ∀ d, canonical v ≠ payload d) : ∃ e, deserialize t = .error e ∧ e.isFormat = true := by
  by_cases hobject : ∃ fields, v = .object fields
  · obtain ⟨fields, rfl⟩ := hobject
    cases hd : readDocument fields with
    | ok d => exact absurd (canonical_eq_payload_iff.2 ⟨fields, rfl, hd⟩) (hv d)
    | error e =>
      refine ⟨.mismatch e, ?_, rfl⟩
      simp only [deserialize, readObject, h, hd]
  · refine ⟨.object .notAnObject, ?_, rfl⟩
    have hread : readObject t = .error .notAnObject := by
      rw [readObject, h]
      cases v with
      | object fields => exact absurd ⟨fields, rfl⟩ hobject
      | _ => rfl
    simp only [deserialize, hread]

end Document

namespace Report

open Wire (canonical payload canonical_eq_payload_iff readDocument)

/-- The reader accepts the payloads of documents and nothing else. A text that holds one is read as
a report with that document; any other value, at whatever depth it differs, is a format error. -/
theorem deserialize_of_read (v : Json) :
    (∀ d, (∃ fields, v = .object fields ∧ readDocument fields = .ok d) ↔
      canonical v = payload d) ∧
    ∀ t, Json.read t = .ok v →
      (∃ r, deserialize t = .ok r ∧ canonical v = payload r.document) ∨
      ((∀ d, canonical v ≠ payload d) ∧ ∃ e, deserialize t = .error e ∧ e.isFormat = true) := by
  refine ⟨fun d => canonical_eq_payload_iff.symm, fun t h => ?_⟩
  by_cases hv : ∃ d, canonical v = payload d
  · obtain ⟨d, hd⟩ := hv
    refine .inl ⟨ofDocument d, ?_, ?_⟩
    · rw [deserialize, Document.deserialize_of_canonical h hd]
      rfl
    · rw [document_ofDocument]
      exact hd
  · have hnone : ∀ d, canonical v ≠ payload d := fun d hd => hv ⟨d, hd⟩
    obtain ⟨e, he, hformat⟩ := Document.deserialize_of_not_canonical h hnone
    refine .inr ⟨hnone, e, ?_, hformat⟩
    rw [deserialize, he]
    rfl

/-- A tab that spells its filter by name is accepted, though it is not written like that. -/
theorem deserialize_of_read_none_by_name :
    ∃ t v r, Json.read t = .ok v ∧ deserialize t = .ok r ∧ canonical v = payload r.document ∧
      v ≠ payload r.document := by
  let tab : Document.Tab := { tree := .node { name := "Checks" } [] }
  let d : Document := { title := "Build", mainText := "", tabs := [tab] }
  let named : Json := .object
    [(Wire.Field.level, .text "none"), (Wire.Field.node, .object (Wire.treeFields tab.tree))]
  let v : Json := .object
    [(Wire.Field.title, .text "Build"), (Wire.Field.mainText, .text ""),
      (Wire.Field.messages, .array []), (Wire.Field.tabs, .array [named]),
      (Wire.Field.buttons, .array [])]
  have hread : Json.read (Json.write .compact v) = .ok v :=
    Json.read_write Json.Layout.blank_compact rfl
  have hcanonical : canonical v = payload d := rfl
  rcases (deserialize_of_read v).2 _ hread with ⟨r, hr, hv⟩ | ⟨hnone, -⟩
  · refine ⟨_, v, r, hread, hr, hv, ?_⟩
    rw [← hv, hcanonical]
    simp only [v, d, named, payload, Wire.documentFields, Wire.tabFields]
    intro h
    cases h
  · exact absurd hcanonical (hnone d)

end Report

end ReportTree
