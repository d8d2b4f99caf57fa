import ReportTree.Toml.Joining
import ReportTree.Toml.Statement

/-!
# Settings files

The table that a settings file holds. The keys after a header make up a section; the sections of
tables inside it that follow directly belong to it. When a section is complete, its pieces must
agree. A conflict within a section is a fault of its own; sections that do not go together make the
file malformed.
-/

namespace ReportTree.Toml

/-- A section that is being read: its name, whether it belongs to an array, the elements of the
array in front of it, and its entries so far. -/
structure Section where
  name : List Text
  array : Bool
  elements : List Entries := []
  entries : Entries := []

/-- The part of a file that is read: the sections that are complete, and those that are still open,
the innermost first. -/
structure Assembly where
  root : Entries := []
  sections : List Section := []

namespace Section

/-- The table of the name `name` lies inside of the section. -/
def contains (s : Section) (name : List Text) : Bool :=
  s.name.isPrefixOf name && s.name.length < name.length

/-- A header of an array with the name `name` begins the next element of the array that the section
belongs to. The array stands right inside of the sections `outer`. -/
def goesOn (s : Section) (outer : List Section) (name : List Text) : Bool :=
  s.array && s.name == name && s.name.length == ((outer.head?.map (·.name.length)).getD 0) + 1

/-- What a complete section is. -/
def complete (s : Section) : Except Fault Item := do
  s.entries.agree
  return if s.array then .tables (s.elements ++ [s.entries]) else .table .header s.entries

/-- The section when its next element begins. -/
def next (s : Section) : Except Fault Section := do
  s.entries.agree
  return { s with elements := s.elements ++ [s.entries], entries := [] }

/-- The entry that a complete section is for a table of the name `outer`; `none` for that table
itself. `again` is the name of an array that goes on around it: inside of that, a table of the same
name that an array implies is an element as well. -/
def entry? (s : Section) (outer : List Text) (again : Option (List Text)) (item : Item) :
    Option (Text × Item) :=
  match s.name.drop outer.length with
  | [] => none
  | key :: keys =>
    let origin := if s.array && again == some [key] then Origin.element else .implied
    some (key, Item.under origin .implied keys item)

/-- The name of the outermost section, if that is a later element of an array. -/
def again? (sections : List Section) : Option (List Text) :=
  sections.getLast?.bind fun s => if s.elements.isEmpty then none else some s.name

/-- The section, with `others` around it, and a complete one inside of it. -/
def absorb (outer : Section) (others : List Section) (inner : Section) : Except Fault Section := do
  let item ← inner.complete
  match inner.entry? outer.name (again? (outer :: others)) item with
  | none => return outer
  | some e => return { outer with entries := ← outer.entries.put false e }

end Section

/-- The file with another complete section. -/
def Entries.absorb (root : Entries) (s : Section) : Except Fault Entries := do
  let item ← s.complete
  match s.entry? [] none item with
  | none => return root
  | some e => (root.add true e).mapError fun _ => .malformed

/-- The file when a section begins: all sections are complete that do not contain it. -/
def openSection (root : Entries) (array : Bool) (name : List Text) :
    (sections : List Section) → Except Fault Assembly
  | [] => .ok { root := root, sections := [{ name := name, array := array }] }
  | s :: outer =>
    if s.contains name then
      .ok { root := root, sections := { name := name, array := array } :: s :: outer }
    else if array && s.goesOn outer name then do
      return { root := root, sections := (← s.next) :: outer }
    else
      match outer with
      | [] => do
        return { root := ← root.absorb s, sections := [{ name := name, array := array }] }
      | o :: others => do openSection root array name ((← o.absorb others s) :: others)
termination_by sections => sections.length

/-- The entries of a file whose sections are all complete. -/
def closeSections (root : Entries) : (sections : List Section) → Except Fault Entries
  | [] => .ok root
  | [s] => root.absorb s
  | s :: o :: others => do closeSections root ((← o.absorb others s) :: others)
termination_by sections => sections.length

/-- A section with the value of a key more. Within a section, only what dotted keys write must agree
at once. -/
def Section.define (s : Section) (key : List Text) (v : Value) : Except Fault Section := do
  match Entries.entry? key v with
  | none => return s
  | some e => return { s with entries := ← s.entries.put (1 < key.length) e }

/-- A file with one statement more. -/
def Assembly.add (a : Assembly) : Statement → Except Fault Assembly
  | .header array name => openSection a.root array name a.sections
  | .entry key v =>
    match a.sections, Entries.entry? key v with
    | s :: outer, _ => do return { a with sections := (← s.define key v) :: outer }
    | [], none => .ok a
    | [], some e => do
      return { a with root := ← (a.root.add true e).mapError fun _ => .malformed }

/-- Reads a settings file. -/
def read (t : Text) : Except Fault Table := do
  let script := Script.read t
  let a ← script.statements.foldlM Assembly.add {}
  match script.fault with
  | some f => throw f
  | none => (← closeSections a.root a.sections).toTable

end ReportTree.Toml
