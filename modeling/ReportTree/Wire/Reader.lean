import ReportTree.Report.Document
import ReportTree.Wire.Field
import ReportTree.Wire.Payload

/-!
# Reading a payload

The document that a JSON value holds. An object has the fields of the format, all of them, in their
order and no other. Objects nest no deeper than the value does, so that depth is where reading
stops.
-/

namespace ReportTree.Wire

/-- How deep arrays and objects are nested in a value. -/
def depth : Json → Nat
  | .array items => depthOfItems items + 1
  | .object fields => depthOfFields fields + 1
  | _ => 0
where
  /-- The depth of the deepest item. -/
  depthOfItems : List Json → Nat
    | [] => 0
    | v :: vs => max (depth v) (depthOfItems vs)
  /-- The depth of the deepest field. -/
  depthOfFields : List (Text × Json) → Nat
    | [] => 0
    | (_, v) :: fields => max (depth v) (depthOfFields fields)

/-- Reads a button. -/
def readButton (fields : Fields) : Except Mismatch Button := do
  let (text, fields) ← takeAs asString Field.text fields
  let (type, fields) ← takeAs asString Field.type fields
  match ButtonKind.ofWireName? type with
  | none => .error (.unknownButtonKind type)
  | some kind =>
    let (shouldClose, fields) ← takeAs asBool Field.shouldClose fields
    let (shouldContinue, fields) ← takeAs asBool Field.shouldContinue fields
    let (clipboard, fields) ← takeAs asString Field.clipboard fields
    finish fields
    return { text, kind, clipboard, shouldClose, shouldContinue }

/-- Reads the fields of a node that tell what it shows. -/
def readLabel (fields : Fields) : Except Mismatch (Label × Fields) := do
  let (name, fields) ← takeAs asString Field.name fields
  let (icon, fields) ← takeAs asString Field.icon fields
  let (levelText, fields) ← takeAs asString Field.level fields
  let level ← readLevel levelText
  let (expanded, fields) ← takeAs asBool Field.expandByDefault fields
  let (details, fields) ← takeAs asStringOrNull Field.details fields
  return ({ name, icon, level, expanded, details }, fields)

/-- Reads a node with everything below it, `depth` levels of it. -/
def readTreeTo : (depth : Nat) → Fields → Except Mismatch Tree
  | 0, _ => .error (.missing Field.name)
  | depth + 1, fields => do
    let (label, fields) ← readLabel fields
    let (objects, fields) ← takeAs asObjects Field.children fields
    let children ← objects.mapM (readTreeTo depth)
    finish fields
    return .node label children

/-- Reads a node with everything below it. -/
def readTree (fields : Fields) : Except Mismatch Tree :=
  readTreeTo (depth.depthOfFields fields + 1) fields

/-- Reads a tab. -/
def readTab (fields : Fields) : Except Mismatch Document.Tab := do
  let (levelText, fields) ← takeAs asString Field.level fields
  let filter ← readLevel levelText
  let (object, fields) ← takeAs asObject Field.node fields
  let tree ← readTree object
  finish fields
  return { filter, tree }

/-- Reads a message with those below it, `depth` levels of them. -/
def readMessageTo : (depth : Nat) → Fields → Except Mismatch Message
  | 0, _ => .error (.missing Field.title)
  | depth + 1, fields => do
    let (title, fields) ← takeAs asString Field.title fields
    let (icon, fields) ← takeAs asString Field.icon fields
    let (description, fields) ← takeAs asStrings Field.description fields
    let (info, fields) ← takeAs asStrings Field.info fields
    let (objects, fields) ← takeAs asObjects Field.buttons fields
    let buttons ← objects.mapM readButton
    let (subHeader, fields) ← takeAs asString Field.subMessageHeader fields
    let (objects, fields) ← takeAs asObjects Field.subMessages fields
    let subMessages ← objects.mapM (readMessageTo depth)
    finish fields
    return { title, icon, description, info, buttons, subHeader, subMessages }

/-- Reads a message with those below it. -/
def readMessage (fields : Fields) : Except Mismatch Message :=
  readMessageTo (depth.depthOfFields fields + 1) fields

/-- Reads the fields of a report. -/
def readDocument (fields : Fields) : Except Mismatch Document := do
  let (title, fields) ← takeAs asString Field.title fields
  let (mainText, fields) ← takeAs asString Field.mainText fields
  let (objects, fields) ← takeAs asObjects Field.messages fields
  let messages ← objects.mapM readMessage
  let (objects, fields) ← takeAs asObjects Field.tabs fields
  let tabs ← objects.mapM readTab
  let (objects, fields) ← takeAs asObjects Field.buttons fields
  let buttons ← objects.mapM readButton
  finish fields
  return { title, mainText, messages, tabs, buttons }

end ReportTree.Wire
