import ReportTree.Forest.Outline
import ReportTree.Forest.View
import ReportTree.Report.Document

/-!
# Reports

A report while it is being built. The trees of its tabs grow in one forest.
-/

namespace ReportTree

/-- A tab: the root of its tree, whose name is the name of the tab, and the level below which nodes
are left out when it is shown. -/
structure Tab where
  root : NodeId
  filter : Level := .none

/-- An icon in several sizes: the image for each width, by the name that the host has for it. -/
abbrev IconSizes := List (Int × Text)

/-- Sets the image for a width. A width that was there keeps its place. -/
def IconSizes.put (sizes : IconSizes) (width : Int) (image : Text) : IconSizes :=
  if sizes.any (·.1 == width) then
    sizes.map fun s => if s.1 = width then (width, image) else s
  else sizes ++ [(width, image)]

/-- The images with their widths; the last one counts for a width that comes twice. -/
def IconSizes.ofList (pairs : List (Int × Text)) : IconSizes :=
  pairs.foldl (fun sizes p => IconSizes.put sizes p.1 p.2) []

/-- A report that is being built. -/
structure Report where
  title : Text
  mainText : Text
  messages : List Message := []
  tabs : List Tab := []
  buttons : List Button := []
  icons : List IconSizes := []
  forest : Forest := {}

namespace Report

/-- A report without messages, tabs and buttons. -/
def new (title mainText : Text) : Report := { title := title, mainText := mainText }

/-- Adds a message at the end and names it. -/
def addMessage (r : Report) (title icon : Text) : MessagePath × Report :=
  ([r.messages.length], { r with messages := r.messages ++ [{ title := title, icon := icon }] })

/-- Changes a message. -/
def modifyMessage (r : Report) (path : MessagePath) (g : Message → Message) : Report :=
  { r with messages := Message.modifyAt g path r.messages }

/-- The message at a path. -/
def message? (r : Report) (path : MessagePath) : Option Message := Message.find? path r.messages

/-- Adds a message at the end of those of another message and names it. -/
def addSubMessage (r : Report) (path : MessagePath) (title icon : Text) : MessagePath × Report :=
  (path ++ [((r.message? path).map (·.subMessages.length)).getD 0],
    r.modifyMessage path fun m =>
      { m with subMessages := m.subMessages ++ [{ title := title, icon := icon }] })

/-- Changes the buttons of a message, or those of the report itself for the empty path. -/
def modifyButtons (r : Report) (path : MessagePath) (g : List Button → List Button) : Report :=
  if path.isEmpty then { r with buttons := g r.buttons }
  else r.modifyMessage path fun m => { m with buttons := g m.buttons }

/-- The buttons of a message, or those of the report itself for the empty path. -/
def buttonsAt (r : Report) (path : MessagePath) : List Button :=
  if path.isEmpty then r.buttons else ((r.message? path).map (·.buttons)).getD []

/-- Adds a button at the end and tells its position. -/
def addButton (r : Report) (path : MessagePath) (text : Text) (kind : ButtonKind) :
    Nat × Report :=
  ((r.buttonsAt path).length,
    r.modifyButtons path (· ++ [{ text := text, kind := kind }]))

/-- Adds a tab with a new tree and tells its position. -/
def addTab (r : Report) (name : Text) : Nat × Report :=
  let (root, forest) := r.forest.addRoot name
  (r.tabs.length, { r with tabs := r.tabs ++ [{ root := root }], forest := forest })

/-- Sets the filter of a tab. -/
def setFilter (r : Report) (tab : Nat) (l : Level) : Report :=
  { r with tabs := r.tabs.modify tab fun t => { t with filter := l } }

/-- Adds a child to the root of a tab. -/
def addTabChild (r : Report) (tab : Tab) (markup : Text) : NodeId × Report :=
  let (c, forest) := r.forest.addChild tab.root markup
  (c, { r with forest := forest })

/-- Registers an icon and tells its number. -/
def allocateIcon (r : Report) (sizes : IconSizes) : Nat × Report :=
  (r.icons.length, { r with icons := r.icons ++ [sizes] })

/-- The most severe level of the roots of the tabs. -/
def maximumLevel (r : Report) : Level :=
  r.tabs.foldl (fun l t => l.highest (r.forest.level t.root)) .none

/-- The report by value. -/
def document (r : Report) : Document :=
  { title := r.title
    mainText := r.mainText
    messages := r.messages
    tabs := r.tabs.map fun t => { filter := t.filter, tree := r.forest.tree t.root }
    buttons := r.buttons }

/-- Makes the trees of tabs. -/
def plantTabs : Forest → List Document.Tab → List Tab × Forest
  | f, [] => ([], f)
  | f, t :: ts =>
    let (root, f) := f.plant none t.tree
    let (tabs, f) := plantTabs f ts
    ({ root := root, filter := t.filter } :: tabs, f)

/-- The report with this document. -/
def ofDocument (d : Document) : Report :=
  let (tabs, forest) := plantTabs {} d.tabs
  { title := d.title, mainText := d.mainText, messages := d.messages, tabs := tabs,
    buttons := d.buttons, forest := forest }

end Report

end ReportTree
