import ReportTree.Forest.Outline

/-!
# File paths

The node of a path is found by going down from a node, one child for every segment. What is missing
is made on the way, by the same rules as any child: a segment is a line of markup.

* `openSegment_eq`, `openSegments_cons`, `fileNode_eq`: the way down, made by raising the new nodes.
-/

namespace ReportTree.Forest

/-- The segments of a path. Empty ones do not count. -/
def segments (path : Text) : List Text := (Text.splitOn '/' path).filter (!·.isEmpty)

section

variable {m : Type → Type} [Monad m] (give : Forest → NodeId → Level → m Forest)

/-- The child of `i` for one segment, the first one with this name or a new one, which is given its
level. A node without an icon becomes a folder before it gets a child. -/
def openSegmentBy (folder : Text) (i : NodeId) (f : Forest) (segment : Text) :
    m (NodeId × Forest) :=
  match f.childNamed? i segment with
  | some c => pure (c, f)
  | none =>
    let f := if (f.label i).icon.isEmpty then f.setIcon i folder else f
    addChildBy give f i segment

/-- Goes down from `i`, one child for every segment, and gives new ones their levels. -/
def openSegmentsBy (folder : Text) : NodeId → Forest → List Text → m (NodeId × Forest)
  | i, f, [] => pure (i, f)
  | i, f, s :: ss => do
    let (c, f) ← openSegmentBy give folder i f s
    openSegmentsBy folder c f ss

/-- The node of a path below `i`, which gets the icon `file`; `i` itself for the empty path. New
nodes are given their levels. -/
def fileNodeBy (f : Forest) (i : NodeId) (path folder file : Text) : m (NodeId × Forest) := do
  let (j, f) ← openSegmentsBy give folder i f (segments path)
  pure (j, f.setIcon j file)

end

/-- The child of `i` for one segment, the first one with this name or a new one. A node without an
icon becomes a folder before it gets a child. -/
def openSegment (folder : Text) (i : NodeId) (f : Forest) (segment : Text) : NodeId × Forest :=
  (openSegmentBy giveByRaise folder i f segment).run

/-- Goes down from `i`, one child for every segment. -/
def openSegments (folder : Text) (i : NodeId) (f : Forest) (path : List Text) : NodeId × Forest :=
  (openSegmentsBy giveByRaise folder i f path).run

/-- The node of a path below `i`, which gets the icon `file`; `i` itself for the empty path. -/
def fileNode (f : Forest) (i : NodeId) (path folder file : Text) : NodeId × Forest :=
  (fileNodeBy giveByRaise f i path folder file).run

theorem openSegment_eq (folder : Text) (i : NodeId) (f : Forest) (segment : Text) :
    openSegment folder i f segment =
      match f.childNamed? i segment with
      | some c => (c, f)
      | none =>
        let f := if (f.label i).icon.isEmpty then f.setIcon i folder else f
        f.addChild i segment := by
  rw [openSegment, openSegmentBy]
  cases f.childNamed? i segment <;> rfl

theorem openSegments_nil (folder : Text) (i : NodeId) (f : Forest) :
    openSegments folder i f [] = (i, f) := rfl

theorem openSegments_cons (folder : Text) (i : NodeId) (f : Forest) (s : Text) (ss : List Text) :
    openSegments folder i f (s :: ss) =
      let (c, f) := openSegment folder i f s
      openSegments folder c f ss := rfl

theorem fileNode_eq (f : Forest) (i : NodeId) (path folder file : Text) :
    f.fileNode i path folder file =
      let (j, f) := openSegments folder i f (segments path)
      (j, f.setIcon j file) := rfl

end ReportTree.Forest
