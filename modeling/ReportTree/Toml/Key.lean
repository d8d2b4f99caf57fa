import ReportTree.Toml.Quoted

/-!
# Keys

A key has up to a hundred parts with points between them. A part is quoted, on one line, or bare:
ASCII letters, digits, dashes and low lines. Spaces and tabs may stand around every part.
-/

namespace ReportTree.Toml.Key

/-- What bare parts are made of. -/
def isBare : CodePoint → Bool
  | .scalar c => c.isAlphanum || c == '-' || c == '_'
  | _ => false

/-- The bare part that a text begins with, and what follows it and the spaces after it. -/
def readBare? (t : Text) : Option (Text × Text) :=
  let part := t.takeWhile isBare
  let rest := afterSpaces (t.dropWhile isBare)
  if part.isEmpty || (rest.head?.map isBare).getD false then none else some (part, rest)

/-- The part that a text begins with, and what follows it and the spaces after it. -/
def readPart? (t : Text) : Option (Text × Text) :=
  let t := afterSpaces t
  if (t.head?.map Quoted.isMark).getD false then
    (Quoted.read? false t).map fun r => (r.1, afterSpaces r.2)
  else readBare? t

/-- The parts that a text begins with, at most `most` of them. -/
def readParts? : (most : Nat) → Text → Option (List Text × Text)
  | 0, _ => none
  | most + 1, t =>
    match readPart? t with
    | none => none
    | some (part, .scalar '.' :: rest) =>
      (readParts? most rest).map fun r => (part :: r.1, r.2)
    | some (part, rest) => some ([part], rest)

/-- The most parts of a key. -/
def mostParts : Nat := 100

/-- The key that a text begins with, and what follows it. -/
def read? (t : Text) : Option (List Text × Text) := readParts? mostParts t

end ReportTree.Toml.Key
