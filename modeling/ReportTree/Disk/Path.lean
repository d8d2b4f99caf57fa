import ReportTree.Text.Utf8

/-!
# Paths

Paths are texts; slashes divide their parts. In the normal form of a path no part is empty or a
single point. A double point is kept, because the part in front of it may lead elsewhere.

The system knows paths as bytes. Bytes that are no UTF-8 stand in a path as low halves of surrogate
pairs; other halves have no bytes.
-/

namespace ReportTree.Path

/-- The part that stands for the directory itself. -/
def here : Text := "."

/-- The part that stands for the directory above. -/
def above : Text := ".."

/-- The parts that lead anywhere. -/
def parts (p : Text) : List Text := (p.splitOn '/').filter fun s => s ≠ [] ∧ s ≠ here

/-- The slashes that a path keeps at its front: one, or two if there are exactly two. -/
def root (p : Text) : Text :=
  match (p.takeWhile (· == .scalar '/')).length with
  | 0 => []
  | 2 => "//"
  | _ => "/"

/-- The normal form of a path. -/
def normal (p : Text) : Text :=
  let n := root p ++ Text.join "/" (parts p)
  if n.isEmpty then here else n

/-- The last part of a path. -/
def name (p : Text) : Text := ((parts p).getLast?).getD []

/-- The name without what follows its last point, unless that point is at one of its ends. -/
def stem (p : Text) : Text :=
  let n := name p
  let ending := n.reverse.takeWhile (· != .scalar '.')
  let front := n.take (n.length - ending.length - 1)
  if ending.length = n.length ∨ ending.isEmpty ∨ front.isEmpty then n else front

/-- The byte that a half of a surrogate pair stands for. -/
def escapedByte? (c : CodePoint) : Option UInt8 :=
  if 0xDC80 ≤ c.toNat ∧ c.toNat ≤ 0xDCFF then some (c.toNat - 0xDC00).toUInt8 else none

/-- The bytes of a path. -/
def bytes (p : Text) : List UInt8 :=
  p.flatMap fun c =>
    match escapedByte? c with
    | some b => [b]
    | none => Utf8.encodeNumber c.toNat

/-- The halves of surrogate pairs, from the first on that has no byte, which keep a path from being
one. -/
def unencodable? (p : Text) : Option Utf8.Unencodable :=
  let isPlain (c : CodePoint) : Bool := !Utf8.isHalf c || (escapedByte? c).isSome
  let run := (p.dropWhile isPlain).takeWhile Utf8.isHalf
  let start := (p.takeWhile isPlain).length
  if run.isEmpty then none else some ⟨start, start + run.length⟩

/-- A path as a message names it: its bytes are read as UTF-8 as far as they are. -/
def shown (p : Text) : Text := Utf8.decodeReplacing (p.length + 1) (bytes p)

/-- The most bytes of a part of a path. -/
def partLimit : Nat := 255

/-- The most bytes of a path. -/
def pathLimit : Nat := 4095

/-- A part of a path has more bytes than any name. -/
def isLongPart (part : Text) : Bool := partLimit < (bytes part).length

/-- A path has more bytes than the system takes. -/
def isLong (p : Text) : Bool := pathLimit < (bytes p).length

end ReportTree.Path
