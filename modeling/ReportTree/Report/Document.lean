import ReportTree.Report.Message
import ReportTree.Tree

/-!
# Documents

A report as its document holds it: a value without identities.
-/

namespace ReportTree

/-- A tab of a document: a tree and the level below which nodes are left out when it is shown. -/
structure Document.Tab where
  filter : Level := .none
  tree : Tree

/-- A report by value. -/
structure Document where
  title : Text
  mainText : Text
  messages : List Message := []
  tabs : List Document.Tab := []
  buttons : List Button := []

namespace Document

/-- The most severe level of the roots of the tabs. -/
def maximumLevel (d : Document) : Level :=
  d.tabs.foldl (fun l t => l.highest t.tree.label.level) .none

end Document

end ReportTree
