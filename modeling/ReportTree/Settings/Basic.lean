import ReportTree.Json.Writer
import ReportTree.Settings.Lookup

/-!
# Settings

The settings of a command are put together from layers. A layer may leave any setting open; the
layers above it win over those below, and what no layer sets has a default.

* `Layer.indent_onto` and its companions: a setting of two layers is that of the upper one if it
  sets it, else that of the lower one.
-/

namespace ReportTree

open Toml (Table)

/-- The settings of a command, where they came from and what was passed over on the way. An
`indent` of 0 stands for output on one line. -/
structure Settings where
  indent : Int
  folderIcon : Text
  fileIcon : Text
  failOn : Level
  sources : List Text
  warnings : List Settings.Warning

namespace Settings

/-- One source of settings, or several put together. -/
structure Layer where
  indent : Option Int := none
  folderIcon : Option Text := none
  fileIcon : Option Text := none
  failOn : Option Level := none
  sources : List Text := []
  warnings : List Warning := []

/-- The indentation when no layer sets one. -/
def defaultIndent : Int := 2

/-- The icon of a folder when no layer sets one. -/
def defaultFolderIcon : Text := "folder"

/-- The icon of a file when no layer sets one. -/
def defaultFileIcon : Text := "file"

/-- The threshold of a check when no layer sets one. -/
def defaultFailOn : Level := .error

/-- How the indentation is asked of a writer: not at all for 0. -/
def jsonIndent (s : Settings) : Option Int := if s.indent = 0 then none else some s.indent

/-- How documents are written. -/
def jsonLayout (s : Settings) : Except Json.WidthError Json.Layout :=
  Json.Layout.ofIndent s.jsonIndent

/-- The settings as a layer that leaves nothing open. -/
def layer (s : Settings) : Layer where
  indent := some s.indent
  folderIcon := some s.folderIcon
  fileIcon := some s.fileIcon
  failOn := some s.failOn
  sources := s.sources
  warnings := s.warnings

namespace Layer

/-- The defaults as a layer. -/
def defaults : Layer where
  indent := some defaultIndent
  folderIcon := some defaultFolderIcon
  fileIcon := some defaultFileIcon
  failOn := some defaultFailOn
  sources := ["<defaults>"]

/-- The settings of a layer, with defaults for what it leaves open. -/
def settings (l : Layer) : Settings where
  indent := l.indent.getD defaultIndent
  folderIcon := l.folderIcon.getD defaultFolderIcon
  fileIcon := l.fileIcon.getD defaultFileIcon
  failOn := l.failOn.getD defaultFailOn
  sources := l.sources
  warnings := l.warnings

/-- The layer `upper` on top of the layer `lower`. -/
def onto (upper lower : Layer) : Layer where
  indent := upper.indent.or lower.indent
  folderIcon := upper.folderIcon.or lower.folderIcon
  fileIcon := upper.fileIcon.or lower.fileIcon
  failOn := upper.failOn.or lower.failOn
  sources := lower.sources ++ upper.sources
  warnings := lower.warnings ++ upper.warnings

theorem indent_onto (u l : Layer) : (u.onto l).indent = u.indent.or l.indent := rfl

theorem folderIcon_onto (u l : Layer) :
    (u.onto l).folderIcon = u.folderIcon.or l.folderIcon := rfl

theorem fileIcon_onto (u l : Layer) : (u.onto l).fileIcon = u.fileIcon.or l.fileIcon := rfl

theorem failOn_onto (u l : Layer) : (u.onto l).failOn = u.failOn.or l.failOn := rfl

theorem warnings_onto (u l : Layer) : (u.onto l).warnings = l.warnings ++ u.warnings := rfl

/-- What was found, if it was found without a warning. -/
def found {α : Type} : Except Warning (Option α) → Option α
  | .ok v => v
  | .error _ => none

/-- The warning that a look-up gave. -/
def warned {α : Type} : Except Warning (Option α) → List Warning
  | .ok _ => []
  | .error w => [w]

/-- The layer that a table makes, whose values come from `source`. -/
def ofTable (t : Table) (source : Option Text) : Layer :=
  let codec := table t "codec"
  let files := table t "files"
  let check := table t "check"
  let indent := integer codec "[codec]" "indent" (some 0)
  let folderIcon := text files "[files]" "folder_icon"
  let fileIcon := text files "[files]" "file_icon"
  let failOn := level check "[check]" "fail_on"
  { indent := found indent
    folderIcon := found folderIcon
    fileIcon := found fileIcon
    failOn := found failOn
    sources := source.toList
    warnings := warned indent ++ warned folderIcon ++ warned fileIcon ++ warned failOn }

end Layer

end Settings

end ReportTree
