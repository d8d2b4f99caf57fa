import ReportTree.Json.Basic
import ReportTree.Report.Document

/-!
# The payload of a report

A report as a JSON value. The names of the fields and their order are part of the format.
-/

namespace ReportTree.Wire

/-! ## Field names -/

namespace Field

def text : Text := "text"
def type : Text := "type"
def shouldClose : Text := "shouldClose"
def shouldContinue : Text := "shouldContinue"
def clipboard : Text := "clipboard"
def name : Text := "name"
def icon : Text := "icon"
def level : Text := "level"
def expandByDefault : Text := "expandByDefault"
def details : Text := "details"
def children : Text := "children"
def node : Text := "node"
def title : Text := "title"
def mainText : Text := "mainText"
def description : Text := "description"
def info : Text := "info"
def buttons : Text := "buttons"
def subMessageHeader : Text := "sub_message_header"
def subMessages : Text := "sub_messages"
def messages : Text := "messages"
def tabs : Text := "tabs"

end Field

/-! ## Values -/

/-- A text, or null. -/
def textOrNull : Option Text → Json
  | none => .null
  | some t => .text t

/-- The fields of a button. -/
def buttonFields (b : Button) : List (Text × Json) :=
  [(Field.text, .text b.text),
    (Field.type, .text b.kind.wireName),
    (Field.shouldClose, .bool b.shouldClose),
    (Field.shouldContinue, .bool b.shouldContinue),
    (Field.clipboard, .text b.clipboard)]

/-- The fields of a node that tell what it shows. -/
def labelFields (l : Label) : List (Text × Json) :=
  [(Field.name, .text l.name),
    (Field.icon, .text l.icon),
    (Field.level, .text l.level.wireName),
    (Field.expandByDefault, .bool l.expanded),
    (Field.details, textOrNull l.details)]

mutual

/-- The fields of a node with everything below it. -/
def treeFields : Tree → List (Text × Json)
  | .node l ts => labelFields l ++ [(Field.children, .array (treePayloads ts))]

/-- The payloads of trees. -/
def treePayloads : List Tree → List Json
  | [] => []
  | t :: ts => .object (treeFields t) :: treePayloads ts

end

/-- The fields of a tab. -/
def tabFields (t : Document.Tab) : List (Text × Json) :=
  [(Field.level, .text t.filter.wireName), (Field.node, .object (treeFields t.tree))]

/-- Texts as an array. -/
def textArray (ts : List Text) : Json := .array (ts.map .text)

/-- Buttons as an array. -/
def buttonArray (bs : List Button) : Json := .array (bs.map fun b => .object (buttonFields b))

mutual

/-- The fields of a message with those below it. -/
def messageFields : Message → List (Text × Json)
  | ⟨title, icon, description, info, buttons, subHeader, subMessages⟩ =>
    [(Field.title, .text title),
      (Field.icon, .text icon),
      (Field.description, textArray description),
      (Field.info, textArray info),
      (Field.buttons, buttonArray buttons),
      (Field.subMessageHeader, .text subHeader),
      (Field.subMessages, .array (messagePayloads subMessages))]

/-- The payloads of messages. -/
def messagePayloads : List Message → List Json
  | [] => []
  | m :: ms => .object (messageFields m) :: messagePayloads ms

end

/-- The fields of a report. -/
def documentFields (d : Document) : List (Text × Json) :=
  [(Field.title, .text d.title),
    (Field.mainText, .text d.mainText),
    (Field.messages, .array (messagePayloads d.messages)),
    (Field.tabs, .array (d.tabs.map fun t => .object (tabFields t))),
    (Field.buttons, buttonArray d.buttons)]

/-- The payload of a report. -/
def payload (d : Document) : Json := .object (documentFields d)

end ReportTree.Wire
