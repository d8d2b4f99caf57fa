import ReportTree.Proofs.Forest.Planting
import ReportTree.Proofs.Report.Joined
import ReportTree.Proofs.Wire.Grammar
import ReportTree.Report.Codec

/-!
# Reading reports back

A report that is written and read back has the same document, but for pairs of surrogate halves,
and its trees are linked in both directions.

* `Report.document_ofDocument`, `Report.coherent_ofDocument`: the report with a document shows the
  document, in a coherent forest whose tabs are roots.
* `Document.deserialize_serialize`: the round trip of a document.
* `Report.serialize_reads_back`: the round trip of a report, for every indentation width that is
  not refused.
-/

namespace ReportTree

namespace Report

open Forest (Agree planted_plant)

/-- `r` are tabs and a forest that come of planting the trees of `ts` in `f`. -/
structure PlantedTabs (f : Forest) (ts : List Document.Tab) (r : List Tab × Forest) : Prop where
  size_le : f.size ≤ r.2.size
  agree : Agree 0 f.size r.2 f
  parent_root : ∀ t ∈ r.1, r.2.parent t.root = none
  coherent : f.Coherent → r.2.Coherent
  map_tree_eq : ∀ g : Forest, Agree f.size r.2.size g r.2 → r.2.size ≤ g.size →
    (r.1.map fun t => { filter := t.filter, tree := g.tree t.root : Document.Tab }) = ts

theorem plantedTabs_plantTabs (f : Forest) (ts : List Document.Tab) :
    PlantedTabs f ts (plantTabs f ts) := by
  induction ts generalizing f with
  | nil =>
    exact ⟨Nat.le_refl _, fun _ _ _ => rfl, fun _ h => absurd h List.not_mem_nil, id,
      fun _ _ _ => rfl⟩
  | cons t ts ih =>
    have hfirst := planted_plant f none t.tree
    have hrest := ih (f.plant none t.tree).2
    rw [plantTabs]
    generalize f.plant none t.tree = r at *
    obtain ⟨i, g⟩ := r
    dsimp only at *
    generalize plantTabs g ts = s at *
    obtain ⟨tabs, g'⟩ := s
    have hlt := hfirst.size_lt
    have hsize := hrest.size_le
    have hroot := hfirst.root_eq
    dsimp only at *
    refine ⟨Nat.le_trans (Nat.le_of_lt hlt) hsize,
      (hrest.agree.mono (Nat.le_refl 0) (Nat.le_of_lt hlt)).trans hfirst.agree, ?_, ?_, ?_⟩
    · intro x hx
      rcases List.mem_cons.1 hx with rfl | hx
      · rw [hrest.agree.parent (Nat.zero_le _) (hroot ▸ hlt)]
        exact hfirst.parent_root
      · exact hrest.parent_root x hx
    · exact fun hf => hrest.coherent (hfirst.coherent hf fun _ h => by cases h)
    · intro h hh hle
      have hnew : Agree f.size g.size h g :=
        (hh.mono (Nat.le_refl _) hsize).trans (hrest.agree.mono (Nat.zero_le _) (Nat.le_refl _))
      rw [List.map_cons, hrest.map_tree_eq h (hh.mono (Nat.le_of_lt hlt) (Nat.le_refl _)) hle,
        hfirst.tree_eq hnew (Nat.le_trans hsize hle)]

/-- The report with a document shows it. -/
theorem document_ofDocument (d : Document) : (ofDocument d).document = d := by
  have h := (plantedTabs_plantTabs {} d.tabs).map_tree_eq _ (fun _ _ _ => rfl) (Nat.le_refl _)
  obtain ⟨title, mainText, messages, tabs, buttons⟩ := d
  simp only [document, ofDocument, Document.mk.injEq, true_and, and_true]
  exact h

theorem coherent_ofDocument (d : Document) : (ofDocument d).forest.Coherent :=
  (plantedTabs_plantTabs {} d.tabs).coherent Forest.coherent_empty

theorem parent_root_ofDocument (d : Document) :
    ∀ t ∈ (ofDocument d).tabs, (ofDocument d).forest.parent t.root = none :=
  (plantedTabs_plantTabs {} d.tabs).parent_root

end Report

namespace Document

open Json (Layout)

/-- A document reads back from its text with the pairs in all its texts joined. Spaces may follow
the text. -/
theorem deserialize_serialize_append (d : Document) {layout : Layout} (hl : layout.Blank)
    {w : Text} (hw : ∀ c ∈ w, Json.isSpace c = true) :
    deserialize (d.serialize layout ++ w) = .ok d.joined := by
  have hread : Json.read (d.serialize layout ++ w) = .ok (Wire.payload d.joined) := by
    rw [serialize, Json.read_write_append hl (Wire.numberless_payload d) hw, Wire.joined_payload]
  rw [deserialize, readObject, hread, Wire.payload]
  simp only [Wire.readDocument_documentFields]

/-- A document reads back from its text with the pairs in all its texts joined. -/
theorem deserialize_serialize (d : Document) {layout : Layout} (hl : layout.Blank) :
    deserialize (d.serialize layout) = .ok d.joined := by
  rw [← List.append_nil (d.serialize layout)]
  exact d.deserialize_serialize_append hl fun _ h => absurd h List.not_mem_nil

/-- Joining the pairs of a document changes nothing of its text. -/
theorem serialize_joined (d : Document) (layout : Layout) :
    d.joined.serialize layout = d.serialize layout := by
  rw [serialize, ← Wire.joined_payload, Json.write_joined, serialize]

end Document

namespace Report

open Json (Layout)

/-- Every layout that an indentation width stands for sets items apart with spaces. -/
theorem blank_of_ofIndent {indent : Option Int} {layout : Layout}
    (h : Layout.ofIndent indent = .ok layout) : layout.Blank := by
  rcases Layout.eq_of_ofIndent_eq_ok h with rfl | ⟨n, rfl⟩
  · exact Layout.blank_compact
  · exact Layout.blank_spaces n

/-- The text of a document is read as a report that shows it. -/
theorem deserialize_document (d : Document) {layout : Layout} (hl : layout.Blank) :
    deserialize (d.serialize layout) = .ok (ofDocument d.joined) := by
  rw [deserialize, Document.deserialize_serialize d hl]
  rfl

/-- What is read from the text of a report shows its document. -/
theorem deserialize_serialize_layout (r : Report) {layout : Layout} (hl : layout.Blank) :
    deserialize (r.serialize layout) = .ok (ofDocument r.document.joined) :=
  deserialize_document r.document hl

/-- A report that is written reads back as one with the same document, its pairs of halves joined.
In its forest every listed node names the node that lists it, and the tabs are roots. Written
again, it gives the same text. This holds without an indentation width and for every width that is a
word of 64 bits; any other is refused, and nothing is written. -/
theorem serialize_reads_back (r : Report) (indent : Option Int) :
    (∃ n, indent = some n ∧ ¬Json.IsWord n ∧ Layout.ofIndent indent = .error .unbounded) ∨
    ∃ layout r', Layout.ofIndent indent = .ok layout ∧
      deserialize (r.serialize layout) = .ok r' ∧
      r'.document = r.document.joined ∧
      (∀ i, ∀ c ∈ r'.forest.children i, r'.forest.parent c = some i) ∧
      (∀ t ∈ r'.tabs, r'.forest.parent t.root = none) ∧
      r'.serialize layout = r.serialize layout := by
  cases hindent : Layout.ofIndent indent with
  | error e =>
    obtain ⟨n, hn, hword⟩ := Layout.exists_of_ofIndent_eq_error hindent
    exact .inl ⟨n, hn, hword, rfl⟩
  | ok layout =>
    refine .inr ⟨layout, _, rfl, deserialize_serialize_layout r (blank_of_ofIndent hindent),
      document_ofDocument _, ?_, parent_root_ofDocument _, ?_⟩
    · exact fun _ _ hc => (coherent_ofDocument _).parent_eq hc
    · rw [serialize, document_ofDocument, Document.serialize_joined, serialize]

/-- A width that is no word is refused, also where it would stand for no spaces at all. -/
theorem not_serialize_reads_back_of_no_word :
    ¬∃ layout r', Layout.ofIndent (some (-100000000000000000000)) = .ok layout ∧
      deserialize ((new "t" "").serialize layout) = .ok r' := by
  rintro ⟨_, _, h, -⟩
  cases h

end Report

end ReportTree
