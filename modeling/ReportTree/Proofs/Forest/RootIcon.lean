import ReportTree.Proofs.Forest.Revisit

/-!
# The icon of a root

Whatever is inserted below a root, its icon changes no other node: it is asked for when the root
gets a child, and only the icon of the root itself depends on the answer.

* `Topmost.fileNode_setIcon`: inserting a path below a root with another icon.
* `Topmost.icon_fileNode`: the icon that the root has after a path was inserted.
-/

namespace ReportTree.Forest

variable {f g : Forest} {i j r : NodeId} {x y folder s : Text} {names : List Text}

/-! ## Changes of other nodes and of other fields -/

@[simp] theorem size_setIcon : (f.setIcon r x).size = f.size := size_modifyLabel

@[simp] theorem children_setIcon : (f.setIcon r x).children j = f.children j := children_modifyLabel

@[simp] theorem parent_setIcon : (f.setIcon r x).parent j = f.parent j := parent_modifyLabel

theorem name_setIcon : ((f.setIcon r x).label j).name = (f.label j).name := by
  rw [label_setIcon]
  split <;> rfl

@[simp] theorem level_setIcon : (f.setIcon r x).level j = f.level j :=
  level_modifyLabel fun _ => rfl

@[simp] theorem childNamed?_setIcon : (f.setIcon r x).childNamed? i s = f.childNamed? i s := by
  simp only [childNamed?, children_setIcon, name_setIcon]

/-- The icon of a node that is there. -/
theorem icon_setIcon (hr : r < f.size) : ((f.setIcon r x).label r).icon = x := by
  rw [label_setIcon, if_pos ⟨rfl, hr⟩]

/-- An icon that is shown already changes nothing. -/
theorem setIcon_self (f : Forest) (r : NodeId) : f.setIcon r (f.label r).icon = f := by
  refine eq_of_reads size_setIcon (fun j => ?_) (fun j => parent_setIcon) fun j => children_setIcon
  rw [label_setIcon]
  split
  · next h => rw [← h.1]
  · rfl

/-- A change of labels goes with an icon, if it is about another node or about other fields. -/
theorem modifyLabel_setIcon {m : Label → Label}
    (hm : i = r → ∀ l, m { l with icon := x } = { m l with icon := x }) :
    (f.setIcon r x).modifyLabel i m = (f.modifyLabel i m).setIcon r x := by
  refine eq_of_reads (by simp) (fun j => ?_) (fun j => by simp) fun j => by simp
  rw [label_modifyLabel, label_setIcon, label_setIcon, label_modifyLabel, size_setIcon,
    size_modifyLabel]
  by_cases hi : i = j ∧ i < f.size
  · obtain ⟨rfl, hlt⟩ := hi
    by_cases hr : r = i
    · subst hr
      simp only [hlt, and_self, if_true]
      exact hm rfl _
    · simp [hlt, hr]
  · simp only [hi, if_false]

theorem expand_setIcon : (f.setIcon r x).expand i = (f.expand i).setIcon r x :=
  modifyLabel_setIcon fun _ _ => rfl

theorem showLevel_setIcon {l : Level} :
    (f.setIcon r x).showLevel i l = (f.showLevel i l).setIcon r x :=
  modifyLabel_setIcon fun _ _ => rfl

theorem setIcon_comm (hi : i ≠ r) : (f.setIcon r x).setIcon i y = (f.setIcon i y).setIcon r x :=
  modifyLabel_setIcon fun h => absurd h hi

theorem modifyChildren_setIcon {m : List NodeId → List NodeId} :
    (f.setIcon r x).modifyChildren i m = (f.modifyChildren i m).setIcon r x := by
  refine eq_of_reads (by simp) (fun j => ?_) (fun j => by simp) fun j => ?_
  · rw [label_modifyChildren, label_setIcon, label_setIcon, label_modifyChildren,
      size_modifyChildren]
  · rw [children_modifyChildren, children_setIcon, children_setIcon, children_modifyChildren,
      size_setIcon]

/-- A new node is another one. -/
theorem push_setIcon (hr : r < f.size) {n : Node} :
    (f.setIcon r x).push n = (f.push n).setIcon r x := by
  refine eq_of_reads (by simp) (fun j => ?_) (fun j => ?_) fun j => ?_
  · rw [label_push, label_setIcon, label_setIcon, label_push, size_setIcon, size_push]
    by_cases hj : j = f.size
    · rw [if_pos hj, if_pos hj, if_neg fun h => Nat.ne_of_lt hr (h.1.trans hj)]
    · simp [hj, hr, Nat.lt_succ_of_lt hr]
  · rw [parent_push, parent_setIcon, parent_setIcon, parent_push, size_setIcon]
  · rw [children_push, children_setIcon, children_setIcon, children_push, size_setIcon]

theorem addBelow_setIcon (hr : r < f.size) {l : Label} :
    (f.setIcon r x).addBelow i l = ((f.addBelow i l).1, (f.addBelow i l).2.setIcon r x) := by
  simp only [addBelow, appendChild, size_setIcon, push_setIcon hr, modifyChildren_setIcon]

theorem raiseFrom_setIcon {l : Level} (steps : Nat) :
    raiseFrom l steps i (f.setIcon r x) = (raiseFrom l steps i f).setIcon r x := by
  induction steps generalizing f i with
  | zero => rfl
  | succ steps ih =>
    simp only [raiseFrom, showLevel_setIcon, parent_setIcon, level_setIcon]
    split
    · rfl
    · split
      · exact ih
      · rfl

theorem raise_setIcon {l : Level} : (f.setIcon r x).raise i l = (f.raise i l).setIcon r x := by
  rw [raise, size_setIcon, raiseFrom_setIcon, raise]

/-! ## Making nodes -/

theorem openLastChild_setIcon (hr : r < f.size) :
    (f.setIcon r x).openLastChild i =
      ((f.openLastChild i).1, (f.openLastChild i).2.setIcon r x) := by
  simp only [openLastChild, children_setIcon]
  split <;> simp only [addBelow_setIcon hr, expand_setIcon]

theorem openDown_setIcon (hf : f.Coherent) (hi : i < f.size) (hr : r < f.size) (depth : Nat) :
    openDown depth i (f.setIcon r x) =
      ((openDown depth i f).1, (openDown depth i f).2.setIcon r x) := by
  induction depth generalizing f i with
  | zero => rfl
  | succ depth ih =>
    have hgrows := growsTo_openLastChild hf hi
    simp only [openDown, openLastChild_setIcon hr]
    exact ih (hgrows.coherent hf) hgrows.lt (Nat.lt_of_lt_of_le hr hgrows.growth.size_le)

theorem addLine_setIcon (hf : f.Coherent) (hi : i < f.size) (hr : r < f.size)
    (line : Markup.Line) : (f.setIcon r x).addLine i line =
      ((f.addLine i line).1, (f.addLine i line).2.setIcon r x) := by
  have hgrows := growsTo_openDown hf hi line.depth
  simp only [addLine_eq, openDown_setIcon hf hi hr,
    addBelow_setIcon (Nat.lt_of_lt_of_le hr hgrows.growth.size_le), raise_setIcon]

/-! ## Inserting paths -/

/-- The icon of a root that had the icon `x`, after a path was inserted that starts with `s`. -/
def iconAfter (folder : Text) (f : Forest) (r : NodeId) (s x : Text) : Text :=
  if f.childNamed? r s = none ∧ x = [] then folder else x

/-- Going down from another node. -/
theorem openSegment_setIcon (hf : f.Coherent) (hi : i < f.size) (hr : r < f.size) (hir : i ≠ r)
    (folder s : Text) : openSegment folder i (f.setIcon r x) s =
      ((openSegment folder i f s).1, (openSegment folder i f s).2.setIcon r x) := by
  have hlabel : (f.setIcon r x).label i = f.label i := by
    rw [label_setIcon, if_neg fun h => hir h.1.symm]
  cases hfound : f.childNamed? i s with
  | some c => simp only [openSegment_eq, childNamed?_setIcon, hfound]
  | none =>
    simp only [openSegment_eq, childNamed?_setIcon, hfound, hlabel, addChild]
    split
    · rw [setIcon_comm hir]
      exact addLine_setIcon (hf.modifyLabel _) (size_setIcon.symm ▸ hi) (size_setIcon.symm ▸ hr) _
    · exact addLine_setIcon hf hi hr _

/-- Going down from the root, which becomes a folder if it has no icon and gets a child. -/
theorem openSegment_setIcon_root (hf : f.Coherent) (hr : r < f.size) (folder s x : Text) :
    openSegment folder r (f.setIcon r x) s =
      ((openSegment folder r f s).1,
        (openSegment folder r f s).2.setIcon r (iconAfter folder f r s x)) := by
  cases hfound : f.childNamed? r s with
  | some c => simp [openSegment_eq, hfound, iconAfter]
  | none =>
    obtain ⟨f', hf'⟩ :
        ∃ f', (if (f.label r).icon.isEmpty then f.setIcon r folder else f) = f' := ⟨_, rfl⟩
    obtain ⟨hsize, hchildren, hparent, -, -⟩ := markFolder_spec hr hf'
    -- Both roots get the icon that is left, whichever they had.
    have hmark : (if x.isEmpty then (f.setIcon r x).setIcon r folder else f.setIcon r x) =
        f'.setIcon r (iconAfter folder f r s x) := by
      have hforget (y : Text) : f'.setIcon r y = f.setIcon r y := by
        rw [← hf']
        split
        · exact setIcon_setIcon f r folder y
        · rfl
      rw [hforget, setIcon_setIcon, iconAfter, hfound]
      by_cases hx : x = [] <;> simp [hx]
    have hline := addLine_setIcon (x := iconAfter folder f r s x) (hf.congr hsize hparent hchildren)
      (hsize.symm ▸ hr) (hsize.symm ▸ hr) (Markup.Line.read s)
    simp only [openSegment_eq, childNamed?_setIcon, hfound, icon_setIcon hr, addChild, hmark, hf']
    exact hline

/-- The node is listed by none. -/
def Topmost (f : Forest) (r : NodeId) : Prop := ∀ j, r ∉ f.children j

theorem Topmost.keeps (h : f.Topmost r) (hg : Keeps f g) (hr : r < f.size) : g.Topmost r := by
  intro j hmem
  obtain ⟨new, hnew, hle⟩ := hg.exists_children_eq j
  rw [hnew] at hmem
  rcases List.mem_append.1 hmem with hmem | hmem
  · exact h j hmem
  · exact Nat.not_le_of_lt hr (hle r hmem)

/-- The way down does not lead to the root. -/
theorem Topmost.openSegment_ne (h : f.Topmost r) (hf : f.Coherent) (hi : i < f.size)
    (hr : r < f.size) (folder s : Text) : (openSegment folder i f s).1 ≠ r := by
  cases hfound : f.childNamed? i s with
  | some c =>
    rw [openSegment_eq, hfound]
    rintro rfl
    exact h i (List.mem_of_find?_eq_some hfound)
  | none => exact Nat.ne_of_gt (Nat.lt_of_lt_of_le hr (openSegment_new hf hi folder hfound).1)

theorem Topmost.openSegments_setIcon (h : f.Topmost r) (hf : f.Coherent) (hi : i < f.size)
    (hr : r < f.size) (hir : i ≠ r) (folder : Text) (names : List Text) :
    openSegments folder i (f.setIcon r x) names =
        ((openSegments folder i f names).1, (openSegments folder i f names).2.setIcon r x) ∧
      (openSegments folder i f names).1 ≠ r := by
  induction names generalizing f i with
  | nil => exact ⟨rfl, hir⟩
  | cons s names ih =>
    have hgrows := growsTo_openSegment hf hi folder s
    have hkeeps := keeps_openSegment hf hi folder s
    simp only [openSegments_cons, openSegment_setIcon hf hi hr hir]
    exact ih (h.keeps hkeeps hr) (hgrows.coherent hf) hgrows.lt
      (Nat.lt_of_lt_of_le hr hkeeps.size_le) (h.openSegment_ne hf hi hr folder s)

/-- A path is inserted in the same way below a root with another icon. -/
theorem Topmost.fileNode_setIcon (h : f.Topmost r) (hf : f.Coherent) (hr : r < f.size)
    {path : Text} (hpath : segments path = s :: names) (folder file x : Text) :
    (f.setIcon r x).fileNode r path folder file =
      ((f.fileNode r path folder file).1,
        (f.fileNode r path folder file).2.setIcon r (iconAfter folder f r s x)) := by
  have hgrows := growsTo_openSegment hf hr folder s
  have hkeeps := keeps_openSegment hf hr folder s
  obtain ⟨hopen, hne⟩ := (h.keeps hkeeps hr).openSegments_setIcon
    (x := iconAfter folder f r s x) (hgrows.coherent hf) hgrows.lt
    (Nat.lt_of_lt_of_le hr hkeeps.size_le) (h.openSegment_ne hf hr hr folder s) folder names
  simp only [fileNode_eq, hpath, openSegments_cons, openSegment_setIcon_root hf hr, hopen,
    setIcon_comm hne]

/-- The icon of the root itself. -/
theorem Topmost.icon_fileNode (h : f.Topmost r) (hf : f.Coherent) (hr : r < f.size)
    {path : Text} (hpath : segments path = s :: names) (folder file : Text) :
    ((f.fileNode r path folder file).2.label r).icon =
      iconAfter folder f r s (f.label r).icon := by
  have hsame := h.fileNode_setIcon hf hr hpath folder file (f.label r).icon
  have hlt : r < (f.fileNode r path folder file).2.size :=
    Nat.lt_of_lt_of_le hr (growsTo_fileNode hf hr path folder file).growth.size_le
  rw [setIcon_self] at hsame
  conv_lhs => rw [hsame]
  exact icon_setIcon hlt

/-- A path without segments is the root, which becomes a file. -/
theorem fileNode_of_segments_eq_nil {path : Text} (hpath : segments path = [])
    (folder file : Text) : f.fileNode r path folder file = (r, f.setIcon r file) := by
  rw [fileNode_eq, hpath, openSegments_nil]

end ReportTree.Forest
