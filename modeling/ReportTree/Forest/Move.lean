import ReportTree.Forest.Basic

/-!
# Moving nodes

A node is moved by taking it off the list of its parent and putting it last on the list of another
node. Levels stay as they are.
-/

namespace ReportTree.Forest

/-- The parent of the node does not list it. -/
inductive MoveError where
  | notListed
  deriving DecidableEq

/-- The message of the error. -/
def MoveError.message : MoveError → Text
  | notListed => "list.remove(x): x not in list"

/-- Puts the node `i` last below `target`. -/
def attach (f : Forest) (i target : NodeId) : Forest :=
  (f.setParent i (some target)).appendChild target i

/-- Moves the node `i`, with everything below it, to the end of the children of `target`. -/
def move (f : Forest) (i target : NodeId) : Except MoveError Forest :=
  match f.parent i with
  | none => .ok (f.attach i target)
  | some p =>
    if (f.children p).contains i then .ok ((f.modifyChildren p (·.erase i)).attach i target)
    else .error .notListed

end ReportTree.Forest
