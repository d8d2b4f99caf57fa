import ReportTree.Toml.Entries

/-!
# Joining what is written

An entry is added to a table by the rule for its key: it may be refused, join the last piece of the
table there, or stand beside it as another piece. The pieces of a table must agree: written into one
table, they break no rule. Only then do they make up a value.

All of this follows the levels of a table inwards. Names have a limited number of parts, so a
limited number of levels is enough (`mostLevels`).
-/

namespace ReportTree.Toml

/-- What becomes of an entry that is added to a table. -/
inductive Placement where
  | refused (c : Conflict)
  /-- It is another piece. -/
  | beside
  /-- It and the last piece are one: `item`. -/
  | instead (item : Item)
  /-- It and all pieces are one: `item`. -/
  | insteadOfAll (item : Item)
  /-- Its entries `more` are added to entries of the last piece, which is made of them anew. -/
  | within (entries more : Entries) (renew : Entries → Item)

/-- Some table that has pieces already is written again. -/
def Entries.reopens (before more : Entries) : Bool := more.any fun e => before.isSplit e.1

/-- The rule for a table of which `before` is a piece already. A table has one header, and none if
dotted keys lead through it. Pieces that are implied join if no other table is written between them,
which `newest` says. A `strict` rule admits no header after tables in pieces that go on below it. -/
def Placement.ofTables (strict newest : Bool) (key : Text) (first : Origin) (before : Entries)
    (later : Origin) (more : Entries) : Placement :=
  match first, later with
  | _, .element => .insteadOfAll (.tables [before, more])
  | .header, .header => .refused (.repeatedKey key)
  | .header, .dotted => .refused .redefinedTable
  | .header, .implied => .beside
  | .dotted, .header => .refused .redefinedTable
  | .dotted, _ => .beside
  | _, .header =>
    if strict && before.reopens more then .refused (.repeatedKey key) else .beside
  | _, .implied => if newest then .within before more (.table first) else .beside
  | _, .dotted => .beside

/-- The rule for an array of tables that is there already: a table inside it belongs to its last
element. -/
def Placement.ofElements (key : Text) (before : List Entries) (later : Origin) (more : Entries) :
    Placement :=
  match later, before.getLast? with
  | .element, _ => .instead (.tables (before ++ [more]))
  | .header, _ => .refused (.repeatedKey key)
  | _, none => .refused (.repeatedKey key)
  | _, some last => .within last more fun entries => .tables (before.dropLast ++ [entries])

/-- The rule for an entry of a table. -/
def Entries.placement (es : Entries) (strict : Bool) (key : Text) (item : Item) : Placement :=
  match es.last? key, item with
  | none, _ => .beside
  | some (.tables before), .tables more => .instead (.tables (before ++ more))
  | some (.tables before), .table later more => .ofElements key before later more
  | some (.table first before), .table later more =>
    .ofTables strict (es.newest? == some key) key first before later more
  | some _, _ => .refused (.repeatedKey key)

namespace Entries

mutual

/-- The entries with one more. With `strict`, the pieces of its table must agree. -/
def addWithin : (levels : Nat) → (strict : Bool) → Entries → Text × Item → Except Fault Entries
  | 0, _, _, _ => .error .malformed
  | n + 1, strict, es, (key, item) =>
    match es.placement strict key item with
    | .refused c => .error (.conflict c)
    | .instead item => .ok (es.replaceLast key item)
    | .insteadOfAll item => .ok (es.replaceAll key item)
    | .within entries more renew => do
      let entries ← more.foldlM (putWithin n true) entries
      return es.replaceLast key (renew entries)
    | .beside => do
      let es := es ++ [(key, item)]
      if strict then agreeWithin n es key
      return es

/-- The entries with one more, after which what is written at its key can be put together. -/
def putWithin : (levels : Nat) → (strict : Bool) → Entries → Text × Item → Except Fault Entries
  | 0, _, _, _ => .error .malformed
  | n + 1, strict, es, e => do
    let es ← addWithin n strict es e
    if es.isSplit e.1 then
      let _ ← joinWithin n es e.1
    return es

/-- The pieces at a key agree: each entry may be added to those before it. -/
def agreeWithin : (levels : Nat) → Entries → (key : Text) → Except Fault Unit
  | 0, _, _ => .error .malformed
  | n + 1, es, key =>
    if es.isSplit key then do
      let joined ← (es.inside key).foldlM (addWithin n false) []
      joined.keys.forM (agreeWithin n joined)
    else .ok ()

/-- The table that is written in pieces at a key. -/
def joinWithin : (levels : Nat) → Entries → (key : Text) → Except Fault Entries
  | 0, _, _ => .error .malformed
  | n + 1, es, key => do
    let joined ← (es.inside key).foldlM place []
    joined.keys.forM (agreeWithin n joined)
    return joined

end

/-- The table that entries make up. -/
def tableWithin : (levels : Nat) → Entries → Except Fault Table
  | 0, _ => .error .malformed
  | n + 1, es =>
    es.keys.mapM fun key => do
      match es.pieces key with
      | [.value v] => return (key, v)
      | [.tables elements] =>
        let tables ← elements.mapM (tableWithin n)
        return (key, .list (tables.map .table))
      | [.table _ entries] => return (key, .table (← tableWithin n entries))
      | _ => return (key, .table (← tableWithin n (← joinWithin n es key)))

/-- So many levels are enough: a header and a dotted key after it lead through no more than two
hundred tables, and two steps are made on each level. -/
def mostLevels : Nat := 1000

/-- The entries with one more. With `strict`, the pieces of its table must agree. -/
def add (es : Entries) (strict : Bool) (e : Text × Item) : Except Fault Entries :=
  addWithin mostLevels strict es e

/-- The entries with one more, after which what is written at its key can be put together. -/
def put (es : Entries) (strict : Bool) (e : Text × Item) : Except Fault Entries :=
  putWithin mostLevels strict es e

/-- All tables that are written in pieces agree. -/
def agree (es : Entries) : Except Fault Unit := es.keys.forM (agreeWithin mostLevels es)

/-- The table that entries make up. -/
def toTable (es : Entries) : Except Fault Table := tableWithin mostLevels es

/-- What a key that leads through tables gives to its first part; `none` for a key without parts. -/
def entry? (keys : List Text) (v : Value) : Option (Text × Item) :=
  match keys with
  | [] => none
  | key :: keys => some (key, Item.under .dotted .dotted keys (.value v))

end Entries

end ReportTree.Toml
