import ReportTree.Toml.Fault
import ReportTree.Toml.Value

/-!
# Tables in the making

The entries of a table in the order in which they are written. A table may be written in several
pieces, with other headers between them; then its key has several entries, one for each piece.
-/

namespace ReportTree.Toml

/-- How a table came about: by its own `header`, `implied` by the header of a table inside it, by a
`dotted` key that leads through it, or as an `element` of an array that is implied. -/
inductive Origin where
  | header | implied | dotted | element
  deriving DecidableEq

/-- What stands at a key: a value, a piece of a table or an array of tables. -/
inductive Item where
  | value (v : Value)
  | table (origin : Origin) (entries : List (Text × Item))
  | tables (elements : List (List (Text × Item)))

/-- What is written into a table. -/
abbrev Entries := List (Text × Item)

/-- The item is a piece of a table. -/
def Item.isTable : Item → Bool
  | .table .. => true
  | _ => false

/-- The entries of a piece of a table. -/
def Item.inside : Item → Entries
  | .table _ entries => entries
  | _ => []

/-- What stands at the first of some keys when `item` stands at the last, with a table for every key
in between. The outermost of them is of origin `outermost`. -/
def Item.under (outermost origin : Origin) : (keys : List Text) → Item → Item
  | [], item => item
  | key :: keys, item => .table outermost [(key, Item.under origin origin keys item)]

namespace Entries

/-- The keys, each once. -/
def keys (es : Entries) : List Text := (es.map (·.1)).eraseDups

/-- All that is written at a key. -/
def pieces (es : Entries) (key : Text) : List Item := (es.filter fun e => e.1 = key).map (·.2)

/-- The last that is written at a key. -/
def last? (es : Entries) (key : Text) : Option Item := (es.pieces key).getLast?

/-- A table is written at this key in several pieces. -/
def isSplit (es : Entries) (key : Text) : Bool := 1 < (es.pieces key).length

/-- The key of the table that is written last. -/
def newest? (es : Entries) : Option Text := (es.reverse.find? (·.2.isTable)).map (·.1)

/-- The entries with `item` for the first that is written at a key. -/
def replaceFirst (key : Text) (item : Item) : (es : List (Text × Item)) → Entries
  | [] => []
  | e :: es => if e.1 = key then (key, item) :: es else e :: replaceFirst key item es

/-- The entries with `item` for the last that is written at a key. -/
def replaceLast (es : Entries) (key : Text) (item : Item) : Entries :=
  (replaceFirst key item es.reverse).reverse

/-- The entries with `item` for the first that is written at a key, and nothing else there. -/
def replaceAll (es : Entries) (key : Text) (item : Item) : Entries :=
  let others (es : Entries) : Entries := es.filter fun e => e.1 ≠ key
  es.takeWhile (fun e => e.1 ≠ key) ++ (key, item) :: others (es.dropWhile fun e => e.1 ≠ key)

/-- What the pieces of a table hold together, in order. -/
def inside (es : Entries) (key : Text) : Entries := (es.pieces key).flatMap Item.inside

/-- The entries with one more, where pieces of one table are put together: nothing stands beside a
value, and an array only goes on with an array. -/
def place (es : Entries) (e : Text × Item) : Except Fault Entries :=
  match es.last? e.1, e.2 with
  | some (.tables before), .tables more => .ok (es.replaceLast e.1 (.tables (before ++ more)))
  | some (.tables _), _ => .error (.conflict (.repeatedKey e.1))
  | some (.value _), _ => .error (.conflict (.repeatedKey e.1))
  | _, _ => .ok (es ++ [e])

end Entries

end ReportTree.Toml
