import ReportTree.Forest.Basic
import ReportTree.Text.Quoted

/-!
# Severity in a forest

A node is at least as severe as what is below it: when its level is raised, the ancestors up to the
first one that is severe enough are raised with it. A level is never lowered.
-/

namespace ReportTree

/-- A request to lower the level of a node. -/
structure Lowering where
  name : Text
  current : Level
  requested : Level
  deriving DecidableEq

namespace Lowering

/-- From one level to another. -/
def change (e : Lowering) : Text :=
  e.name.quoted ++ " from " ++ e.current.capitalName ++ " to " ++ e.requested.capitalName

/-- The message of the error. -/
def message (e : Lowering) : Text := "Cannot lower the warning level of " ++ e.change

/-- What is logged about it. -/
def logMessage (e : Lowering) : Text := "Refusing to lower warning level of " ++ e.change

end Lowering

namespace Forest

/-- Gives the level `l` to the node `i` and to its ancestors below the first one that is at least
as severe, `steps` nodes at most. -/
def raiseFrom (l : Level) : (steps : Nat) → NodeId → Forest → Forest
  | 0, _, f => f
  | steps + 1, i, f =>
    let f := f.showLevel i l
    match f.parent i with
    | none => f
    | some p => if l.higher (f.level p) then raiseFrom l steps p f else f

/-- Gives the level `l` to the node `i` and to its ancestors below the first one that is at least
as severe. No node is met twice, for it has the level `l` after the first time. -/
def raise (f : Forest) (i : NodeId) (l : Level) : Forest := raiseFrom l f.size i f

/-- Sets the level of a node. No level and the level that the node has change nothing, a less
severe one is refused. -/
def setLevel (f : Forest) (i : NodeId) (l : Option Level) : Except Lowering Forest :=
  match l with
  | none => .ok f
  | some l =>
    if l = f.level i then .ok f
    else if (f.level i).higher l then .error ⟨(f.label i).name, f.level i, l⟩
    else .ok (f.raise i l)

@[simp] theorem size_showLevel (f : Forest) (i : NodeId) (l : Level) :
    (f.showLevel i l).size = f.size := size_modify ..

@[simp] theorem size_raiseFrom (l : Level) (steps : Nat) (i : NodeId) (f : Forest) :
    (raiseFrom l steps i f).size = f.size := by
  induction steps generalizing i f with
  | zero => rfl
  | succ steps ih =>
    simp only [raiseFrom]
    split
    · simp
    · split
      · simp [ih]
      · simp

@[simp] theorem size_raise (f : Forest) (i : NodeId) (l : Level) :
    (f.raise i l).size = f.size := size_raiseFrom ..

end Forest

end ReportTree
