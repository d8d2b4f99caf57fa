import ReportTree.Forest.Merge
import ReportTree.Forest.Path
import ReportTree.Report.Basic
import ReportTree.Text.Lines

/-!
# Reports from text

Two kinds of report with one tab: the tree that an outline stands for, and the tree of the folders
and files that paths name.
-/

namespace ReportTree

namespace Forest

/-- Adds the lines of an outline below `i`. Blank lines do not count. -/
def addOutline (f : Forest) (i : NodeId) (markup : Text) : Forest :=
  (markup.lines.filter (!·.isBlank)).foldl (fun f line => (f.addChild i line).2) f

/-- Adds the files of a list of paths below `i`, one path for each line. Blanks around a path and
blank lines do not count. -/
def addPaths (f : Forest) (i : NodeId) (paths folder file : Text) : Forest :=
  ((paths.lines.map Text.trim).filter (!·.isEmpty)).foldl
    (fun f path => (f.fileNode i path folder file).2) f

end Forest

namespace Report

/-- A report with a single tab, whose tree `grow` makes below its root. -/
def ofTab (title mainText tab : Text) (grow : Forest → NodeId → Forest) : Report :=
  let (root, f) := Forest.empty.addRoot tab
  { title := title, mainText := mainText, tabs := [{ root := root }], forest := grow f root }

/-- The report of an outline. -/
def ofOutline (markup title tab mainText : Text) : Report :=
  ofTab title mainText tab fun f root => f.addOutline root markup

/-- The report of the files that paths name, with folders merged and sorted. -/
def ofPaths (paths title tab folder file mainText : Text) : Report :=
  ofTab title mainText tab fun f root =>
    (f.addPaths root paths folder file).mergeFolders root folder

end Report

end ReportTree
