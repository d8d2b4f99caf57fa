import ReportTree.Level

/-!
# Outline markup

One line of an outline. From left to right: tabs, one for every level of depth; a level marker, one
of `- + ! x` with a blank after it; an icon tag between dollar signs; the label. Everything but the
label may be missing, and what does not have the form of a marker or tag belongs to the label.
-/

namespace ReportTree.Markup

/-- What a line says. A line without a marker has the level `none`, as one with the marker `-`. -/
structure Line where
  depth : Nat
  level : Level
  icon : Text
  name : Text
  deriving DecidableEq

/-- The code points of an icon tag. -/
def isTagPoint : CodePoint → Bool
  | .scalar c => ('a' ≤ c && c ≤ 'z') || c == '.' || c == '+' || c == '-'
  | _ => false

/-- The tabs in front of a line. -/
def depthOf (t : Text) : Nat := (t.takeWhile (· == .scalar '\t')).length

/-- Takes a level marker off the front. -/
def splitMarker : Text → Level × Text
  | c :: b :: t =>
    match b.isBlank, Level.ofMarker? c with
    | true, some l => (l, t)
    | _, _ => (.none, c :: b :: t)
  | t => (.none, t)

/-- The icon of a tag at the front and what follows the tag. -/
def tag? : Text → Option (Text × Text)
  | .scalar '$' :: t =>
    match t.takeWhile isTagPoint, t.dropWhile isTagPoint with
    | c :: cs, .scalar '$' :: rest => some (c :: cs, rest)
    | _, _ => none
  | _ => none

/-- Takes an icon tag off the front of a text of more than three code points. -/
def splitTag (t : Text) : Text × Text :=
  if t.length > 3 then (tag? t).getD ([], t) else ([], t)

/-- Reads a line. -/
def Line.read (t : Text) : Line :=
  let (level, afterMarker) := splitMarker (Text.trim (t.dropWhile (· == .scalar '\t')))
  let (icon, afterTag) := splitTag (Text.trim afterMarker)
  { depth := depthOf t, level := level, icon := icon, name := Text.trim afterTag }

end ReportTree.Markup
