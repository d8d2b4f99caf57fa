import ReportTree.Disk.Basic

/-!
# Directory trees

A working directory with all that is below it, as a disk. Paths are walked part by part; nothing is
known of what lies outside of the directory.
-/

namespace ReportTree

/-- The files and directories below a working directory, each by the names that lead to it; a
directory has no content. The directories on the way to an entry need no entry of their own. -/
structure DirectoryTree where
  /-- The absolute path of the working directory. -/
  place : Text
  entries : List (List Text × Option (List UInt8))

namespace DirectoryTree

/-- What stands at the end of a list of names. -/
def atNames (t : DirectoryTree) (names : List Text) : Disk.Found :=
  match t.entries.find? fun e => e.1 = names with
  | some (_, some bytes) => .file bytes
  | some (_, none) => .directory
  | none =>
    if names.isEmpty ∨ t.entries.any fun e => names.isPrefixOf e.1 then .directory else .missing

/-- Walks the parts of a path from the directory that `names` lead to; `none` is a directory outside
of the working directory. -/
def walk (t : DirectoryTree) : (names : Option (List Text)) → (path : List Text) → Disk.Found
  | none, [] => .directory
  | some names, [] => t.atNames names
  | none, part :: path =>
    if part = [] ∨ part = Path.here ∨ part = Path.above then t.walk none path
    else if Path.isLongPart part then .tooLong
    else .missing
  | some names, part :: path =>
    match t.atNames names with
    | .directory =>
      if part = [] ∨ part = Path.here then t.walk (some names) path
      else if part = Path.above then
        t.walk (if names.isEmpty then none else some names.dropLast) path
      else if Path.isLongPart part then .tooLong
      else t.walk (some (names ++ [part])) path
    | .file _ => .blocked
    | other => other

/-- The tree as a disk. -/
def disk (t : DirectoryTree) : Disk := fun path =>
  match Path.unencodable? path with
  | some halves => .invalid (.unencodable halves)
  | none =>
    if path.contains (.scalar '\x00') then .invalid .zero
    else if path.isEmpty then .missing
    else if Path.isLong path then .tooLong
    else
      match Text.dropStart? (t.place ++ "/") path with
      | some inside => t.walk (some []) (inside.splitOn '/')
      | none =>
        let start := if (Path.root path).isEmpty then some [] else none
        t.walk start (path.splitOn '/')

end DirectoryTree

end ReportTree
