import Mathlib.Logic.Relation
import ReportTree.Proofs.Forest.Folding

/-!
# Operations in edits

Whatever grows, marks or merges a forest is made of five small changes, the edits. What every edit
keeps, every operation keeps. Moving a node is not made of edits.

* `Edits.coherent`: edits keep a forest coherent.
* `Growth.edits`: the operations that make nodes or set levels are edits.
* `Folding.edits`: so are those that merge folders.
-/

namespace ReportTree.Forest

/-- A small change of a forest. -/
inductive Edit (f : Forest) : Forest → Prop
  /-- A label changes, but for its level. -/
  | relabel (i : NodeId) {g : Label → Label} (hg : ∀ x, (g x).level = x.level) :
      Edit f (f.modifyLabel i g)
  /-- A node without a level is made below another. -/
  | grow {i : NodeId} (hi : i < f.size) {x : Label} (hx : x.level = .none) :
      Edit f (f.addBelow i x).2
  /-- A node is raised. -/
  | raise {i : NodeId} (hi : i < f.size) {l : Level} (hl : l.atLeast (f.level i) = true) :
      Edit f (f.raise i l)
  /-- A node absorbs an only child. -/
  | absorb (i : NodeId) (sep : Text) : Edit f (f.absorbOnlyChild i sep)
  /-- Children are put in order. -/
  | sort (i : NodeId) : Edit f (f.sortChildren i)

/-- Small changes, one after the other. -/
abbrev Edits : Forest → Forest → Prop := Relation.ReflTransGen Edit

theorem Edit.coherent {f g : Forest} (h : Edit f g) (hf : f.Coherent) : g.Coherent := by
  cases h with
  | relabel i hg => exact hf.modifyLabel _
  | grow hi hx => exact hf.addBelow hi
  | raise hi hl => exact hf.raise _
  | absorb i sep => exact hf.absorbOnlyChild
  | sort i => exact hf.sortChildren

theorem Edits.coherent {f g : Forest} (h : Edits f g) (hf : f.Coherent) : g.Coherent := by
  induction h with
  | refl => exact hf
  | tail _ h ih => exact h.coherent ih

/-- A level that a node has already changes nothing. -/
theorem Growth.edits {f g : Forest} {ds : List Demand} (h : Growth f ds g) : Edits f g := by
  induction h with
  | refl => exact .refl
  | relabel _ i hx ih => exact ih.tail (.relabel i hx)
  | grow _ hi hx ih => exact ih.tail (.grow hi hx)
  | raise _ hi hl ih => exact ih.tail (.raise hi hl)
  | keep _ _ ih => exact ih

theorem Folding.edits {f g : Forest} {folder : Text} {cs : List NodeId}
    (h : Folding folder f cs g) : Edits f g := by
  induction h with
  | refl => exact .refl
  | absorb _ _ _ _ _ ih => exact ih.tail (.absorb _ "/")
  | sort _ i ih => exact ih.tail (.sort i)

end ReportTree.Forest
