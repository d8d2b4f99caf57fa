import ReportTree.Level

/-!
# Trees

A status tree as a value: every node shows a label and has its children in order. This is what a
report document holds; a `Forest` adds identity and links to the same shape.
-/

namespace ReportTree

/-- What a node shows. An empty `icon` is none; `expanded` is a hint to show the children. -/
structure Label where
  name : Text
  icon : Text := []
  level : Level := .none
  expanded : Bool := false
  details : Option Text := none
  deriving DecidableEq, Inhabited

/-- A node with everything below it. -/
inductive Tree where
  | node (label : Label) (children : List Tree)

namespace Tree

/-- What the root shows. -/
def label : Tree → Label
  | node l _ => l

/-- The trees below the root. -/
def children : Tree → List Tree
  | node _ ts => ts

mutual

/-- The labels of a tree, every node before what is below it. -/
def preorder : Tree → List Label
  | node l ts => l :: preorderAll ts

/-- The labels of trees, one tree after the other. -/
def preorderAll : List Tree → List Label
  | [] => []
  | t :: ts => preorder t ++ preorderAll ts

end

end Tree

end ReportTree
