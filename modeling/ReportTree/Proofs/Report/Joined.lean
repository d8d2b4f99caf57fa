import ReportTree.Proofs.Json.RoundTrip
import ReportTree.Wire.Payload

/-!
# Documents with joined pairs

A document goes through its text as a document in whose texts the pairs of surrogate halves are
joined. Joining commutes with making the payload.

* `Document.joined`: the document with all its texts joined.
* `Wire.joined_payload`: its payload is the joined payload.
* `Wire.numberless_payload`: no payload holds a number.
-/

namespace ReportTree

/-- The button with its texts joined. -/
def Button.joined (b : Button) : Button :=
  { b with text := b.text.joinPairs, clipboard := b.clipboard.joinPairs }

/-- The label with its texts joined. -/
def Label.joined (l : Label) : Label :=
  { l with
    name := l.name.joinPairs
    icon := l.icon.joinPairs
    details := l.details.map Text.joinPairs }

namespace Tree

mutual

/-- The tree with the texts of all labels joined. -/
def joined : Tree → Tree
  | node l ts => node l.joined (joinedAll ts)

/-- Trees with the texts of all labels joined. -/
def joinedAll : List Tree → List Tree
  | [] => []
  | t :: ts => joined t :: joinedAll ts

end

end Tree

namespace Message

mutual

/-- The message with its texts joined, those of its buttons and of the messages below it too. -/
def joined : Message → Message
  | ⟨title, icon, description, info, buttons, subHeader, subMessages⟩ =>
    ⟨title.joinPairs, icon.joinPairs, description.map Text.joinPairs, info.map Text.joinPairs,
      buttons.map Button.joined, subHeader.joinPairs, joinedAll subMessages⟩

/-- Messages with their texts joined. -/
def joinedAll : List Message → List Message
  | [] => []
  | m :: ms => joined m :: joinedAll ms

end

end Message

/-- The tab with the texts of its tree joined. -/
def Document.Tab.joined (t : Document.Tab) : Document.Tab := { t with tree := t.tree.joined }

/-- The document with all its texts joined. Everything but the texts is as it was. -/
def Document.joined (d : Document) : Document :=
  { title := d.title.joinPairs
    mainText := d.mainText.joinPairs
    messages := Message.joinedAll d.messages
    tabs := d.tabs.map Document.Tab.joined
    buttons := d.buttons.map Button.joined }

/-! ## Texts without halves -/

theorem Text.joinPairs_of_no_high {t : Text} (ht : ∀ h, CodePoint.high h ∉ t) :
    t.joinPairs = t := by
  fun_induction Text.joinPairs t with
  | case1 h l t _ => exact absurd List.mem_cons_self (ht h)
  | case2 c t _ ih =>
    rw [ih fun h hmem => ht h (List.mem_cons_of_mem _ hmem)]
  | case3 => rfl

theorem Text.joinPairs_ofString (s : String) : (Text.ofString s).joinPairs = Text.ofString s := by
  refine joinPairs_of_no_high fun h hmem => ?_
  obtain ⟨c, -, hc⟩ := List.mem_map.1 hmem
  cases hc

theorem Level.joinPairs_wireName (l : Level) : l.wireName.joinPairs = l.wireName := by
  cases l <;> exact Text.joinPairs_ofString _

theorem ButtonKind.joinPairs_wireName (k : ButtonKind) : k.wireName.joinPairs = k.wireName := by
  cases k <;> exact Text.joinPairs_ofString _

namespace Wire

/-! ## Joined payloads -/

open Json (joined joinedItems joinedFields)

theorem joined_textOrNull (t : Option Text) :
    (textOrNull t).joined = textOrNull (t.map Text.joinPairs) := by
  cases t <;> rfl

theorem joinedItems_map_text (ts : List Text) :
    joinedItems (ts.map .text) = (ts.map Text.joinPairs).map .text := by
  induction ts with
  | nil => rfl
  | cons t ts ih => simp only [List.map_cons, joinedItems, joined, ih]

theorem joinedItems_map_object {α : Type} {put : α → List (Text × Json)} {join : α → α}
    (h : ∀ a, joinedFields (put a) = put (join a)) (as : List α) :
    joinedItems (as.map fun a => .object (put a)) = (as.map join).map fun a => .object (put a) := by
  induction as with
  | nil => rfl
  | cons a as ih => simp only [List.map_cons, joinedItems, joined, h, ih]

theorem joinedFields_append (fields more : List (Text × Json)) :
    joinedFields (fields ++ more) = joinedFields fields ++ joinedFields more := by
  induction fields with
  | nil => rfl
  | cons f fields ih => rw [List.cons_append, joinedFields, joinedFields, ih, List.cons_append]

theorem joinedFields_buttonFields (b : Button) :
    joinedFields (buttonFields b) = buttonFields b.joined := by
  simp only [buttonFields, joinedFields, joined, Button.joined, ButtonKind.joinPairs_wireName,
    Field.text, Field.type, Field.shouldClose, Field.shouldContinue, Field.clipboard,
    Text.joinPairs_ofString]

theorem joinedFields_labelFields (l : Label) :
    joinedFields (labelFields l) = labelFields l.joined := by
  simp only [labelFields, joinedFields, joined, Label.joined, Level.joinPairs_wireName,
    joined_textOrNull, Field.name, Field.icon, Field.level, Field.expandByDefault, Field.details,
    Text.joinPairs_ofString]

mutual

theorem joinedFields_treeFields (t : Tree) :
    joinedFields (treeFields t) = treeFields t.joined := by
  match t with
  | .node l ts =>
    rw [treeFields, joinedFields_append, joinedFields_labelFields, Tree.joined, treeFields]
    simp only [joinedFields, joined, joinedItems_treePayloads ts, Field.children,
      Text.joinPairs_ofString]

theorem joinedItems_treePayloads (ts : List Tree) :
    joinedItems (treePayloads ts) = treePayloads (Tree.joinedAll ts) := by
  match ts with
  | [] => rfl
  | t :: ts =>
    simp only [treePayloads, Tree.joinedAll, joinedItems, joined, joinedFields_treeFields t,
      joinedItems_treePayloads ts]

end

mutual

theorem joinedFields_messageFields (m : Message) :
    joinedFields (messageFields m) = messageFields m.joined := by
  match m with
  | ⟨title, icon, description, info, buttons, subHeader, subMessages⟩ =>
    simp only [messageFields, Message.joined, textArray, buttonArray, joinedFields, joined,
      joinedItems_map_text, joinedItems_map_object joinedFields_buttonFields,
      joinedItems_messagePayloads subMessages, Field.title, Field.icon, Field.description,
      Field.info, Field.buttons, Field.subMessageHeader, Field.subMessages,
      Text.joinPairs_ofString]

theorem joinedItems_messagePayloads (ms : List Message) :
    joinedItems (messagePayloads ms) = messagePayloads (Message.joinedAll ms) := by
  match ms with
  | [] => rfl
  | m :: ms =>
    simp only [messagePayloads, Message.joinedAll, joinedItems, joined,
      joinedFields_messageFields m, joinedItems_messagePayloads ms]

end

theorem joinedFields_tabFields (t : Document.Tab) :
    joinedFields (tabFields t) = tabFields t.joined := by
  simp only [tabFields, Document.Tab.joined, joinedFields, joined, joinedFields_treeFields,
    Level.joinPairs_wireName, Field.level, Field.node, Text.joinPairs_ofString]

/-- Joining the texts of a payload is joining those of the document. -/
theorem joined_payload (d : Document) : (payload d).joined = payload d.joined := by
  simp only [payload, documentFields, Document.joined, buttonArray, joined, joinedFields,
    joinedItems_messagePayloads, joinedItems_map_object joinedFields_tabFields,
    joinedItems_map_object joinedFields_buttonFields, Field.title, Field.mainText, Field.messages,
    Field.tabs, Field.buttons, Text.joinPairs_ofString]

/-! ## Payloads without numbers -/

open Json (numberless numberlessItems numberlessFields)

theorem numberless_textOrNull (t : Option Text) : (textOrNull t).numberless = true := by
  cases t <;> rfl

theorem numberlessItems_map {α : Type} {put : α → Json} (h : ∀ a, (put a).numberless = true)
    (as : List α) : numberlessItems (as.map put) = true := by
  induction as with
  | nil => rfl
  | cons a as ih => rw [List.map_cons, numberlessItems, h, ih, Bool.and_self]

theorem numberless_button (b : Button) : (Json.object (buttonFields b)).numberless = true := rfl

theorem numberlessFields_labelFields_append (l : Label) (more : List (Text × Json)) :
    numberlessFields (labelFields l ++ more) = numberlessFields more := by
  simp only [labelFields, List.cons_append, List.nil_append, numberlessFields, numberless,
    numberless_textOrNull, Bool.true_and]

mutual

theorem numberlessFields_treeFields (t : Tree) : numberlessFields (treeFields t) = true := by
  match t with
  | .node l ts =>
    rw [treeFields, numberlessFields_labelFields_append]
    simp only [numberlessFields, numberless, numberlessItems_treePayloads ts, Bool.and_self]

theorem numberlessItems_treePayloads (ts : List Tree) :
    numberlessItems (treePayloads ts) = true := by
  match ts with
  | [] => rfl
  | t :: ts =>
    rw [treePayloads, numberlessItems, numberless, numberlessFields_treeFields t,
      numberlessItems_treePayloads ts, Bool.and_self]

end

mutual

theorem numberlessFields_messageFields (m : Message) :
    numberlessFields (messageFields m) = true := by
  match m with
  | ⟨title, icon, description, info, buttons, subHeader, subMessages⟩ =>
    simp only [messageFields, textArray, buttonArray, numberlessFields, numberless,
      numberlessItems_map (fun _ => rfl : ∀ t, (Json.text t).numberless = true),
      numberlessItems_map numberless_button, numberlessItems_messagePayloads subMessages,
      Bool.and_self]

theorem numberlessItems_messagePayloads (ms : List Message) :
    numberlessItems (messagePayloads ms) = true := by
  match ms with
  | [] => rfl
  | m :: ms =>
    rw [messagePayloads, numberlessItems, numberless, numberlessFields_messageFields m,
      numberlessItems_messagePayloads ms, Bool.and_self]

end

theorem numberless_tab (t : Document.Tab) : (Json.object (tabFields t)).numberless = true := by
  simp only [tabFields, numberless, numberlessFields, numberlessFields_treeFields, Bool.and_self]

theorem numberless_payload (d : Document) : (payload d).numberless = true := by
  simp only [payload, documentFields, buttonArray, numberless, numberlessFields,
    numberlessItems_messagePayloads, numberlessItems_map numberless_tab,
    numberlessItems_map numberless_button, Bool.and_self]

end Wire

end ReportTree
