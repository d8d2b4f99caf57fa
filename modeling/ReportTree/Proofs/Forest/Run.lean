import ReportTree.Proofs.Forest.Edit

/-!
# Runs

A run is any sequence of calls of the operations on a forest. A call may be about every node that
was ever made, also about one that was absorbed since. A call that is refused changes nothing.

* `perform_cases`: a call is made of edits, or it moves a node.
* `Run.coherent`: a run keeps a forest coherent.
* `Logged`: a run with a log of what its calls do.
-/

namespace ReportTree.Forest

/-- A call of an operation. -/
inductive Call where
  | addChild (i : NodeId) (markup : Text)
  | setLevel (i : NodeId) (l : Option Level)
  | fileNode (i : NodeId) (path folder file : Text)
  | addException (i : NodeId) (g : Failures) (e : FailureId)
  | addCleanedException (i : NodeId) (g : Failures) (e : FailureId)
  | absorbOnlyChild (i : NodeId) (sep : Text)
  | mergeFolders (i : NodeId) (folder : Text)
  | mergeFoldersBelow (i : NodeId) (folder : Text)
  | move (i target : NodeId)

/-- The nodes that a call is about. -/
def Call.nodes : Call → List NodeId
  | addChild i _ | setLevel i _ | fileNode i _ _ _ | addException i _ _ | addCleanedException i _ _
  | absorbOnlyChild i _ | mergeFolders i _ | mergeFoldersBelow i _ => [i]
  | move i target => [i, target]

/-- The forest after a call. -/
def perform (f : Forest) : Call → Forest
  | .addChild i markup => (f.addChild i markup).2
  | .setLevel i l => (f.setLevel i l).toOption.getD f
  | .fileNode i path folder file => (f.fileNode i path folder file).2
  | .addException i g e => (f.addException g i e).2
  | .addCleanedException i g e => (f.addCleanedException g i e).2
  | .absorbOnlyChild i sep => f.absorbOnlyChild i sep
  | .mergeFolders i folder => f.mergeFolders i folder
  | .mergeFoldersBelow i folder => f.mergeFoldersBelow i folder
  | .move i target => (f.move i target).toOption.getD f

/-- A call about nodes that are there, of those that `may` be made. -/
def Step (may : Forest → Call → Prop) (f g : Forest) : Prop :=
  ∃ c : Call, (∀ i ∈ c.nodes, i < f.size) ∧ may f c ∧ f.perform c = g

/-- Any number of calls, one after the other, each of those that `may` be made at that moment. -/
abbrev Run (may : Forest → Call → Prop) : Forest → Forest → Prop := Relation.ReflTransGen (Step may)

variable {may : Forest → Call → Prop} {f g : Forest}

/-- One more call. -/
theorem Run.call (h : Run may f g) {c : Call} (hc : ∀ i ∈ c.nodes, i < g.size) (hm : may g c) :
    Run may f (g.perform c) :=
  h.tail ⟨c, hc, hm, rfl⟩

/-- What a call is made of. -/
theorem perform_cases (hf : f.Coherent) {c : Call} (hc : ∀ i ∈ c.nodes, i < f.size) :
    Edits f (f.perform c) ∨
      ∃ i target, c = .move i target ∧ f.move i target = .ok (f.perform c) := by
  cases c with
  | addChild i markup => exact .inl (growsTo_addChild hf (hc i (.head _)) markup).growth.edits
  | setLevel i l =>
    left
    cases h : f.setLevel i l with
    | ok g =>
      rw [perform, h]
      exact (growth_setLevel (hc i (.head _)) h).edits
    | error e =>
      rw [perform, h]
      exact .refl
  | fileNode i path folder file =>
    exact .inl (growsTo_fileNode hf (hc i (.head _)) path folder file).growth.edits
  | addException i g e => exact .inl (growsTo_addAccount hf (hc i (.head _)) g _).growth.edits
  | addCleanedException i g e =>
    exact .inl (growsTo_addAccount hf (hc i (.head _)) g _).growth.edits
  | absorbOnlyChild i sep => exact .inl (.single (.absorb i sep))
  | mergeFolders i folder => exact .inl (folding_mergeFolders folder f i).edits
  | mergeFoldersBelow i folder => exact .inl (folding_mergeFoldersBelow folder f i).edits
  | move i target =>
    cases h : f.move i target with
    | ok g =>
      refine .inr ⟨i, target, rfl, ?_⟩
      rw [perform, h]
      rfl
    | error e =>
      left
      rw [perform, h]
      exact .refl

theorem Step.coherent (h : Step may f g) (hf : f.Coherent) : g.Coherent := by
  obtain ⟨c, hc, -, rfl⟩ := h
  rcases perform_cases hf hc with h | ⟨i, target, rfl, h⟩
  · exact h.coherent hf
  · exact hf.move (hc i (.head _)) (hc target (.tail _ (.head _))) h

theorem Run.coherent (h : Run may f g) (hf : f.Coherent) : g.Coherent := by
  induction h with
  | refl => exact hf
  | tail _ h ih => exact h.coherent ih

/-! ## Logs -/

/-- Nothing but roots that were just made. -/
structure Fresh (f : Forest) : Prop where
  parent_eq : ∀ i, f.parent i = none
  children_eq : ∀ i, f.children i = []
  level_eq : ∀ i, f.level i = .none

theorem fresh_empty : empty.Fresh where
  parent_eq i := parent_of_size_le (Nat.zero_le i)
  children_eq i := children_of_size_le (Nat.zero_le i)
  level_eq _ := rfl

theorem Fresh.addRoot (hf : f.Fresh) (name : Text) : (f.addRoot name).2.Fresh where
  parent_eq i := parent_addRoot.trans (hf.parent_eq i)
  children_eq i := children_addRoot.trans (hf.children_eq i)
  level_eq i := by
    rw [level, label_addRoot]
    split
    · rfl
    · exact hf.level_eq i

theorem Fresh.coherent (hf : f.Fresh) : f.Coherent where
  parent_lt {i p} h := by
    rw [hf.parent_eq] at h
    cases h
  parent_eq {i c} h := by
    rw [hf.children_eq] at h
    cases h
  nodup i := by
    rw [hf.children_eq]
    exact List.nodup_nil

/-- A run, and all that `log` takes down of its calls. -/
inductive Logged {α : Type} (may : Forest → Call → Prop) (log : Forest → Call → List α)
    (f : Forest) : List α → Forest → Prop
  | start : Logged may log f [] f
  | call {as : List α} {g : Forest} (h : Logged may log f as g) {c : Call}
      (hc : ∀ i ∈ c.nodes, i < g.size) (hm : may g c) :
      Logged may log f (as ++ log g c) (g.perform c)

theorem Logged.run {α : Type} {log : Forest → Call → List α} {as : List α}
    (h : Logged may log f as g) : Run may f g := by
  induction h with
  | start => exact .refl
  | call _ hc hm ih => exact ih.call hc hm

end ReportTree.Forest
