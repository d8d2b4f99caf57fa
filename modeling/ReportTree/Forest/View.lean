import ReportTree.Forest.Basic
import ReportTree.Text.Numeral

/-!
# What a forest looks like

The tree below a node, as a value and as a list of its nodes. A path down the children lists of a
forest without cycles has no more nodes than the forest, so that depth is where the views stop.
-/

namespace ReportTree.Forest

/-- The tree below `i`, `depth` levels of it. -/
def treeTo : (depth : Nat) → Forest → NodeId → Tree
  | 0, f, i => .node (f.label i) []
  | depth + 1, f, i => .node (f.label i) ((f.children i).map (treeTo depth f))

/-- The tree below `i`. -/
def tree (f : Forest) (i : NodeId) : Tree := treeTo f.size f i

/-- The nodes of the tree below `i`, every node before what is below it, `depth` levels of them. -/
def nodesTo : (depth : Nat) → Forest → NodeId → List NodeId
  | 0, _, i => [i]
  | depth + 1, f, i => i :: (f.children i).flatMap (nodesTo depth f)

/-- The nodes of the tree below `i`, every node before what is below it. -/
def nodesBelow (f : Forest) (i : NodeId) : List NodeId := nodesTo f.size f i

/-- Every node of the tree below `i` is the parent of the nodes that it lists. -/
def isLinked (f : Forest) (i : NodeId) : Bool :=
  (f.nodesBelow i).all fun j => (f.children j).all fun c => f.parent c == some j

/-- A node in one line, for messages. -/
def describe (f : Forest) (i : NodeId) : Text :=
  "StatusNode(name=" ++ (f.label i).name.quoted ++ ", icon_type=" ++ (f.label i).icon.quoted ++
    ", level=" ++ (f.level i).capitalName ++ ", children=" ++
    Numeral.ofNat (f.children i).length ++ ")"

mutual

/-- Makes the nodes of a tree; its root is listed nowhere. -/
def plant (f : Forest) (parent : Option NodeId) : Tree → NodeId × Forest
  | .node label ts =>
    let i := f.size
    let (cs, f) := plantAll (f.push { label := label, parent := parent }) i ts
    (i, f.modifyChildren i fun _ => cs)

/-- Makes the nodes of trees below `parent`, which does not list them yet. -/
def plantAll (f : Forest) (parent : NodeId) : List Tree → List NodeId × Forest
  | [] => ([], f)
  | t :: ts =>
    let (i, f) := plant f (some parent) t
    let (is, f) := plantAll f parent ts
    (i :: is, f)

end

end ReportTree.Forest
