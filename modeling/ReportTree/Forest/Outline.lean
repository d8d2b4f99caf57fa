import ReportTree.Forest.Severity
import ReportTree.Markup.Line

/-!
# Building a tree from outline markup

A line of markup makes one node below a node of the forest. Every tab in front of it leads to the
last child, which is made if there is none and is marked to be shown open.

The operations that make nodes with a level are written for any way of giving it, which may refuse a
level or keep a record. Those without such a way raise the node.

* `addLine_eq`: the node of a line, made by raising it.
-/

namespace ReportTree.Forest

/-- The last child of `i`, made without a name if there is none, and marked to be shown open. -/
def openLastChild (f : Forest) (i : NodeId) : NodeId × Forest :=
  let (c, f) : NodeId × Forest :=
    match (f.children i).getLast? with
    | some c => (c, f)
    | none => f.addBelow i { name := [] }
  (c, f.expand c)

/-- Goes `depth` levels down from `i` along last children. -/
def openDown : (depth : Nat) → NodeId → Forest → NodeId × Forest
  | 0, i, f => (i, f)
  | depth + 1, i, f =>
    let (c, f) := f.openLastChild i
    openDown depth c f

section

variable {m : Type → Type} [Monad m] (give : Forest → NodeId → Level → m Forest)

/-- Makes the node of a line that has been read, and gives it its level. -/
def addLineBy (f : Forest) (i : NodeId) (line : Markup.Line) : m (NodeId × Forest) :=
  let (target, f) := openDown line.depth i f
  let (c, f) := f.addBelow target { name := line.name, icon := line.icon }
  (c, ·) <$> give f c line.level

/-- Makes the node that a line of markup below `i` stands for, and gives it its level. -/
def addChildBy (f : Forest) (i : NodeId) (markup : Text) : m (NodeId × Forest) :=
  addLineBy give f i (Markup.Line.read markup)

end

/-- Gives a level by raising the node. -/
def giveByRaise (f : Forest) (i : NodeId) (l : Level) : Id Forest := pure (f.raise i l)

/-- Makes the node of a line that has been read. -/
def addLine (f : Forest) (i : NodeId) (line : Markup.Line) : NodeId × Forest :=
  (addLineBy giveByRaise f i line).run

/-- Makes the node that a line of markup below `i` stands for. -/
def addChild (f : Forest) (i : NodeId) (markup : Text) : NodeId × Forest :=
  f.addLine i (Markup.Line.read markup)

theorem addLine_eq (f : Forest) (i : NodeId) (line : Markup.Line) :
    f.addLine i line =
      let (target, f) := openDown line.depth i f
      let (c, f) := f.addBelow target { name := line.name, icon := line.icon }
      (c, f.raise c line.level) := rfl

end ReportTree.Forest
