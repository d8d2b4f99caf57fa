import ReportTree.Text.Basic

/-!
# Messages and buttons

What a report shows above and below its trees. Messages may hold messages; one is named by its path,
the position in each list on the way down.
-/

namespace ReportTree

/-- Whether a button stays enabled after it fired. -/
inductive ButtonKind where
  | clickOnce | clickMany
  deriving DecidableEq

namespace ButtonKind

/-- Both kinds, by number. -/
def all : List ButtonKind := [clickOnce, clickMany]

/-- How a report writes the kind. -/
def wireName : ButtonKind → Text
  | clickOnce => "CLICK_ONCE"
  | clickMany => "CLICK_MANY"

/-- The kind that is written like this. -/
def ofWireName? (t : Text) : Option ButtonKind := all.find? fun k => k.wireName = t

/-- The number of the kind. -/
def number : ButtonKind → Nat
  | clickOnce => 1
  | clickMany => 2

theorem ofWireName?_wireName (k : ButtonKind) : ofWireName? k.wireName = some k := by
  cases k <;> decide

end ButtonKind

/-- An action that the reader of a report may take. -/
structure Button where
  text : Text
  kind : ButtonKind
  clipboard : Text := []
  shouldClose : Bool := false
  shouldContinue : Bool := false
  deriving DecidableEq

namespace Button

/-- The button closes the report. -/
def makeClose (b : Button) : Button := { b with shouldClose := true }

/-- The button lets the host go on. -/
def makeContinue (b : Button) : Button := { b with shouldContinue := true }

/-- The button copies a text. -/
def withClipboard (b : Button) (t : Text) : Button := { b with clipboard := t }

end Button

/-- A message with its details, buttons and messages of its own. -/
structure Message where
  title : Text := []
  icon : Text := []
  description : List Text := []
  info : List Text := []
  buttons : List Button := []
  subHeader : Text := []
  subMessages : List Message := []

/-- The way to a message: its position, or that of the message that holds it, and so on down. -/
abbrev MessagePath := List Nat

namespace Message

mutual

/-- The two messages say the same. -/
def same : Message → Message → Bool
  | ⟨t, i, d, n, b, h, s⟩, ⟨t', i', d', n', b', h', s'⟩ =>
    t == t' && i == i' && d == d' && n == n' && b == b' && h == h' && sameAll s s'

/-- The two lists of messages say the same. -/
def sameAll : List Message → List Message → Bool
  | [], [] => true
  | m :: ms, m' :: ms' => same m m' && sameAll ms ms'
  | _, _ => false

end

mutual

/-- The paths to a message at `path` and to the messages below it, each before those below it. -/
def pathsFrom (path : MessagePath) : Message → List MessagePath
  | ⟨_, _, _, _, _, _, s⟩ => path :: pathsFromAll path 0 s

/-- The paths to messages whose positions below `path` start at `k`. -/
def pathsFromAll (path : MessagePath) (k : Nat) : List Message → List MessagePath
  | [] => []
  | m :: ms => pathsFrom (path ++ [k]) m ++ pathsFromAll path (k + 1) ms

end

/-- The paths to all messages, each before those below it. -/
def paths (ms : List Message) : List MessagePath := pathsFromAll [] 0 ms

/-- The message at a path. -/
def find? : MessagePath → List Message → Option Message
  | [], _ => none
  | [k], ms => ms[k]?
  | k :: path, ms => ms[k]?.bind fun m => find? path m.subMessages

/-- Changes the message at a path. -/
def modifyAt (g : Message → Message) : MessagePath → List Message → List Message
  | [], ms => ms
  | [k], ms => ms.modify k g
  | k :: path, ms =>
    ms.modify k fun m => { m with subMessages := modifyAt g path m.subMessages }

end Message

end ReportTree
