import ReportTree.Ansi.Style
import ReportTree.Report.Document

/-!
# Reports as lines

A report for the terminal: one line per node, indented by depth, with messages above the trees and
buttons below. A node whose level is below the filter of its tab is left out with all below it; the
root of a tab is always shown.
-/

namespace ReportTree

/-- The style of a level. The level `none` has none. -/
def Level.style? : Level → Option Ansi.Style
  | .fatal => some [.redBright, .bold]
  | .error => some [.redBright]
  | .warn => some [.yellow]
  | .concern => some [.magenta]
  | .info => some [.blue]
  | .none => Option.none

/-- The text in the style of a level. -/
def Level.paint (l : Level) (t : Text) : Text :=
  match l.style? with
  | some s => s.paint t
  | .none => t

namespace Outline

/-- The indentation of `depth` levels. -/
def indent (depth : Nat) : Text := Text.repeated depth "  "

/-- A text followed by a level in brackets; the level `none` is not shown. -/
def withLevel (t : Text) (l : Level) : Text :=
  if l = .none then t else t ++ " [" ++ l.name ++ "]"

/-- The name of a node with its icon and level. -/
def caption (x : Label) : Text :=
  withLevel (if x.icon.isEmpty then x.name else x.name ++ " (" ++ x.icon ++ ")") x.level

/-- The line of a node. -/
def labelLine (color : Bool) (depth : Nat) (x : Label) : Text :=
  indent depth ++ "- " ++ (if color then x.level.paint (caption x) else caption x)

/-- The lines of the details of a node. -/
def detailLines (depth : Nat) (x : Label) : List Text :=
  match x.details with
  | none => []
  | some d =>
    if d.isEmpty then []
    else (Text.splitOn '\n' d).map fun line => indent depth ++ "  | " ++ line

mutual

/-- The lines of a tree. -/
def treeLines (filter : Level) (color : Bool) (depth : Nat) : Tree → List Text
  | .node x ts => labelLine color depth x :: detailLines depth x ++
      forestLines filter color (depth + 1) ts

/-- The lines of the trees whose roots pass the filter. -/
def forestLines (filter : Level) (color : Bool) (depth : Nat) : List Tree → List Text
  | [] => []
  | t :: ts =>
    (if t.label.level.atLeast filter then treeLines filter color depth t else []) ++
      forestLines filter color depth ts

end

/-- The lines of buttons. -/
def buttonLines (depth : Nat) (bs : List Button) : List Text :=
  bs.map fun b => indent depth ++ "[" ++ b.text ++ "]"

mutual

/-- The lines of a message. -/
def messageLines (depth : Nat) : Message → List Text
  | ⟨title, _, description, info, buttons, subHeader, subMessages⟩ =>
    (indent depth ++ "* " ++ title) ::
      (description ++ info).map (indent (depth + 1) ++ ·) ++
      buttonLines (depth + 1) buttons ++
      (if subMessages.isEmpty || subHeader.isEmpty then []
        else [indent (depth + 1) ++ subHeader]) ++
      messagesLines (depth + 1) subMessages

/-- The lines of messages, one after the other. -/
def messagesLines (depth : Nat) : List Message → List Text
  | [] => []
  | m :: ms => messageLines depth m ++ messagesLines depth ms

end

/-- The heading of a report. -/
def heading (color : Bool) (d : Document) : Text :=
  let title := withLevel d.title d.maximumLevel
  if color then Ansi.Style.paint [.bold] title else title

end Outline

/-- The lines of a report. -/
def Document.outline (d : Document) (color : Bool) : List Text :=
  [Outline.heading color d] ++
    (if d.mainText.isEmpty then [] else [d.mainText]) ++
    d.messages.flatMap (fun m => [] :: Outline.messageLines 0 m) ++
    d.tabs.flatMap (fun t => [] :: Outline.treeLines t.filter color 0 t.tree) ++
    (if d.buttons.isEmpty then [] else [] :: Outline.buttonLines 0 d.buttons)

end ReportTree
