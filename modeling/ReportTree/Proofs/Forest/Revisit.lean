import Mathlib.Data.List.Find
import ReportTree.Proofs.Forest.Insertion
import ReportTree.Proofs.Markup.Grammar

/-!
# Looking up a path again

A path is looked up segment by segment among the names of nodes, and what is missing is made of
markup. A node that is made of a plain segment has this name and is found the second time; of any
other segment, a node with another name is made every time.

* `Keeps`: the nodes of a forest keep their names and children while others are made.
* `finds_openSegments`: what was made of plain segments is found.
* `not_finds_openSegments`: what was made of another one is not.
* `fileNode_again_iff`: when the second lookup of a path is like the first.
-/

namespace ReportTree

/-! ## Plain segments -/

namespace Markup

variable {s : Text}

/-- The label of a plain line is all of it, and only a plain line is a label in itself. -/
theorem plain_iff : Plain s ↔ (Line.read s).name = s := by
  refine ⟨fun h => by rw [h], fun h => ?_⟩
  obtain ⟨hdepth, hrest⟩ := Line.length_name_read s
  rw [h] at hdepth hrest
  rw [Plain]
  generalize Line.read s = line at *
  obtain ⟨depth, level, icon, name⟩ := line
  dsimp only at *
  obtain rfl : depth = 0 := by omega
  obtain ⟨rfl, rfl⟩ : level = .none ∧ icon = [] := by
    by_contra hne
    rw [not_and_or] at hne
    exact absurd (hrest hne) (Nat.lt_irrefl _)
  rw [h]

end Markup

namespace Forest

variable {f g h : Forest} {i j c : NodeId} {s folder file : Text} {names : List Text}

/-! ## What stays -/

/-- The nodes of `f` have the same names in `g` and the same children, and maybe new ones after
them. -/
structure Keeps (f g : Forest) : Prop where
  size_le : f.size ≤ g.size
  name_eq : ∀ j < f.size, (g.label j).name = (f.label j).name
  exists_children_eq : ∀ j, ∃ new, g.children j = f.children j ++ new ∧ ∀ c ∈ new, f.size ≤ c

theorem Keeps.refl (f : Forest) : Keeps f f :=
  ⟨Nat.le_refl _, fun _ _ => rfl, fun _ => ⟨[], (List.append_nil _).symm, by simp⟩⟩

theorem Keeps.trans (hg : Keeps f g) (hh : Keeps g h) : Keeps f h where
  size_le := Nat.le_trans hg.size_le hh.size_le
  name_eq j hj := (hh.name_eq j (Nat.lt_of_lt_of_le hj hg.size_le)).trans (hg.name_eq j hj)
  exists_children_eq j := by
    obtain ⟨new, hnew, hle⟩ := hg.exists_children_eq j
    obtain ⟨newer, hnewer, hle'⟩ := hh.exists_children_eq j
    refine ⟨new ++ newer, by rw [hnewer, hnew, List.append_assoc], fun c hc => ?_⟩
    rcases List.mem_append.1 hc with hc | hc
    · exact hle c hc
    · exact Nat.le_trans hg.size_le (hle' c hc)

theorem Keeps.modifyLabel (hg : Keeps f g) (i : NodeId) {x : Label → Label}
    (hx : ∀ l, (x l).name = l.name) : Keeps f (g.modifyLabel i x) where
  size_le := by
    rw [size_modifyLabel]
    exact hg.size_le
  name_eq j hj := by
    rw [label_modifyLabel, ← hg.name_eq j hj]
    split
    · exact hx _
    · rfl
  exists_children_eq j := by
    rw [children_modifyLabel]
    exact hg.exists_children_eq j

theorem Keeps.setIcon (hg : Keeps f g) {icon : Text} : Keeps f (g.setIcon i icon) :=
  hg.modifyLabel i fun _ => rfl

theorem Keeps.addBelow (hg : Keeps f g) (hi : i < g.size) (x : Label) :
    Keeps f (g.addBelow i x).2 where
  size_le := by
    rw [size_addBelow]
    exact Nat.le_succ_of_le hg.size_le
  name_eq j hj := by
    rw [label_addBelow, if_neg (Nat.ne_of_lt (Nat.lt_of_lt_of_le hj hg.size_le))]
    exact hg.name_eq j hj
  exists_children_eq j := by
    obtain ⟨new, hnew, hle⟩ := hg.exists_children_eq j
    rw [children_addBelow hi]
    split
    · refine ⟨new ++ [g.size], by rw [hnew, List.append_assoc], fun c hc => ?_⟩
      rcases List.mem_append.1 hc with hc | hc
      · exact hle c hc
      · exact List.mem_singleton.1 hc ▸ hg.size_le
    · exact ⟨new, hnew, hle⟩

theorem Keeps.raise (hg : Keeps f g) (i : NodeId) (l : Level) : Keeps f (g.raise i l) where
  size_le := by
    rw [size_raise]
    exact hg.size_le
  name_eq j hj := by
    rw [label_raise]
    exact hg.name_eq j hj
  exists_children_eq j := by
    rw [children_raise]
    exact hg.exists_children_eq j

/-- A name is looked for among the old children first, then among the new ones. -/
theorem Keeps.childNamed?_eq (hg : Keeps f g) (hf : f.Coherent) {new : List NodeId}
    (hnew : g.children i = f.children i ++ new) : g.childNamed? i s =
      (f.childNamed? i s).or (new.find? fun d => (g.label d).name = s) := by
  have hold : (f.children i).find? (fun d => (g.label d).name = s) = f.childNamed? i s :=
    List.find?_congr fun d hd => by rw [hg.name_eq d (hf.child_lt hd)]
  rw [childNamed?, hnew, List.find?_append, hold]

/-- The first child with a name stays the first one. -/
theorem Keeps.childNamed?_eq_some (hg : Keeps f g) (hf : f.Coherent)
    (h : f.childNamed? i s = some c) : g.childNamed? i s = some c := by
  obtain ⟨new, hnew, -⟩ := hg.exists_children_eq i
  rw [hg.childNamed?_eq hf hnew, h, Option.some_or]

theorem keeps_openLastChild (hi : i < f.size) :
    Keeps f (f.openLastChild i).2 ∧
      ∀ j, f.size ≤ j → ((f.openLastChild i).2.label j).name = [] := by
  have hnone {j : NodeId} (hj : f.size ≤ j) : (f.label j).name = [] := by
    rw [label, get_of_size_le hj]
    rfl
  cases hlast : (f.children i).getLast? with
  | some c =>
    simp only [openLastChild, hlast]
    refine ⟨(Keeps.refl f).modifyLabel c fun _ => rfl, fun j hj => ?_⟩
    rw [expand, label_modifyLabel]
    split <;> exact hnone hj
  | none =>
    simp only [openLastChild, hlast]
    refine ⟨((Keeps.refl f).addBelow hi _).modifyLabel _ fun _ => rfl, fun j hj => ?_⟩
    have hbelow : ((f.addBelow i { name := [] }).2.label j).name = [] := by
      rw [label_addBelow]
      split
      · rfl
      · exact hnone hj
    rw [expand, label_modifyLabel]
    split <;> exact hbelow

/-- Nodes that are made on the way down have no names. -/
theorem keeps_openDown (hf : f.Coherent) (hi : i < f.size) (depth : Nat) :
    Keeps f (openDown depth i f).2 ∧
      ∀ j, f.size ≤ j → ((openDown depth i f).2.label j).name = [] := by
  induction depth generalizing f i with
  | zero =>
    refine ⟨.refl f, fun j hj => ?_⟩
    rw [openDown, label, get_of_size_le hj]
    rfl
  | succ depth ih =>
    have hgrows := growsTo_openLastChild hf hi
    obtain ⟨hopen, hunnamed⟩ := keeps_openLastChild hi
    obtain ⟨hdown, hunnamed'⟩ := ih (hgrows.coherent hf) hgrows.lt
    refine ⟨hopen.trans hdown, fun j hj => ?_⟩
    by_cases hlt : j < (f.openLastChild i).2.size
    · exact (hdown.name_eq j hlt).trans (hunnamed j hj)
    · exact hunnamed' j (Nat.le_of_not_lt hlt)

/-- The node of a line has its name, others that are made with it have none. -/
theorem keeps_addLine (hf : f.Coherent) (hi : i < f.size) (line : Markup.Line) :
    Keeps f (f.addLine i line).2 ∧ ∀ j, f.size ≤ j →
      ((f.addLine i line).2.label j).name = [] ∨
        ((f.addLine i line).2.label j).name = line.name := by
  have hgrows := growsTo_openDown hf hi line.depth
  obtain ⟨hdown, hunnamed⟩ := keeps_openDown hf hi line.depth
  refine ⟨(hdown.addBelow hgrows.lt _).raise _ _, fun j hj => ?_⟩
  rw [addLine_eq, label_raise, label_addBelow]
  by_cases hnew : j = (openDown line.depth i f).2.size
  · rw [if_pos hnew]
    exact .inr rfl
  · rw [if_neg hnew]
    exact .inl (hunnamed j hj)

/-- For a missing segment, a node is made after another one has got an icon perhaps. -/
theorem exists_openSegment_eq (hf : f.Coherent) (hi : i < f.size) (folder : Text)
    (hnone : f.childNamed? i s = none) :
    ∃ f' : Forest, openSegment folder i f s = f'.addLine i (Markup.Line.read s) ∧ f'.Coherent ∧
      f'.size = f.size ∧ (∀ j, f'.children j = f.children j) ∧ Keeps f f' := by
  obtain ⟨f', hf'⟩ :
      ∃ f', (if (f.label i).icon.isEmpty then f.setIcon i folder else f) = f' := ⟨_, rfl⟩
  obtain ⟨hsize, hchildren, hparent, hname, -⟩ := markFolder_spec hi hf'
  refine ⟨f', ?_, hf.congr hsize hparent hchildren, hsize, hchildren, ?_⟩
  · rw [openSegment_eq, hnone]
    dsimp only
    rw [hf', addChild]
  · exact ⟨Nat.le_of_eq hsize.symm, fun j _ => hname j, fun j => ⟨[], by simp [hchildren]⟩⟩

/-- A node that is made for a missing segment has the label of the segment. -/
theorem keeps_openSegment_of_none (hf : f.Coherent) (hi : i < f.size) (folder : Text)
    (hnone : f.childNamed? i s = none) :
    Keeps f (openSegment folder i f s).2 ∧ ∀ j, f.size ≤ j →
      ((openSegment folder i f s).2.label j).name = [] ∨
        ((openSegment folder i f s).2.label j).name = (Markup.Line.read s).name := by
  obtain ⟨f', heq, hcoherent, hsize, -, hkeeps⟩ := exists_openSegment_eq hf hi folder hnone
  obtain ⟨hadd, hnames⟩ := keeps_addLine hcoherent (hsize ▸ hi) (Markup.Line.read s)
  rw [heq]
  exact ⟨hkeeps.trans hadd, fun j hj => hnames j (hsize ▸ hj)⟩

theorem keeps_openSegment (hf : f.Coherent) (hi : i < f.size) (folder s : Text) :
    Keeps f (openSegment folder i f s).2 := by
  cases hfound : f.childNamed? i s with
  | some c =>
    rw [openSegment_eq, hfound]
    exact .refl f
  | none => exact (keeps_openSegment_of_none hf hi folder hfound).1

theorem keeps_openSegments (hf : f.Coherent) (hi : i < f.size) (folder : Text)
    (names : List Text) : Keeps f (openSegments folder i f names).2 := by
  induction names generalizing f i with
  | nil => exact .refl f
  | cons s names ih =>
    have hgrows := growsTo_openSegment hf hi folder s
    exact (keeps_openSegment hf hi folder s).trans (ih (hgrows.coherent hf) hgrows.lt)

theorem keeps_fileNode (hf : f.Coherent) (hi : i < f.size) (path folder file : Text) :
    Keeps f (f.fileNode i path folder file).2 :=
  (keeps_openSegments hf hi folder (segments path)).setIcon

/-! ## Below a node without children -/

/-- From a node without children on, nodes were made one below the other, the last one is `r.1`. -/
structure Beneath (f : Forest) (c : NodeId) (r : NodeId × Forest) : Prop where
  size_le : f.size ≤ r.2.size
  place : r.1 = c ∨ f.size ≤ r.1
  leaf : r.2.children r.1 = []
  children_eq : ∀ j < f.size, j ≠ c → r.2.children j = f.children j

variable {r q : NodeId × Forest}

theorem Beneath.refl (hc : f.children c = []) : Beneath f c (c, f) :=
  ⟨Nat.le_refl _, .inl rfl, hc, fun _ _ _ => rfl⟩

theorem Beneath.trans (hr : Beneath f c r) (hq : Beneath r.2 r.1 q) : Beneath f c q where
  size_le := Nat.le_trans hr.size_le hq.size_le
  place := by
    rcases hq.place with h | h
    · rw [h]
      exact hr.place
    · exact .inr (Nat.le_trans hr.size_le h)
  leaf := hq.leaf
  children_eq j hj hjc := by
    have hjr : j ≠ r.1 := by
      rintro rfl
      exact hr.place.elim hjc (Nat.not_le_of_lt hj)
    rw [hq.children_eq j (Nat.lt_of_lt_of_le hj hr.size_le) hjr, hr.children_eq j hj hjc]

/-- Labels do not matter. -/
theorem Beneath.congr (hr : Beneath f c r) (hsize : g.size = r.2.size)
    (hchildren : ∀ j, g.children j = r.2.children j) : Beneath f c (r.1, g) where
  size_le := by
    rw [hsize]
    exact hr.size_le
  place := hr.place
  leaf := by
    rw [hchildren]
    exact hr.leaf
  children_eq j hj hjc := by
    rw [hchildren]
    exact hr.children_eq j hj hjc

/-- Nothing is below a new node. -/
theorem children_addBelow_new (hi : i < f.size) (x : Label) :
    (f.addBelow i x).2.children f.size = [] := by
  rw [children_addBelow hi, if_neg (Nat.ne_of_lt hi), children_of_size_le (Nat.le_refl _)]

theorem beneath_addBelow (hc : c < f.size) (x : Label) : Beneath f c (f.addBelow c x) where
  size_le := by
    rw [size_addBelow]
    exact Nat.le_succ _
  place := .inr (Nat.le_refl _)
  leaf := children_addBelow_new hc x
  children_eq j _ hjc := by rw [children_addBelow hc, if_neg (Ne.symm hjc)]

theorem beneath_openDown (hf : f.Coherent) (hc : c < f.size) (hleaf : f.children c = [])
    (depth : Nat) : Beneath f c (openDown depth c f) := by
  induction depth generalizing f c with
  | zero => exact .refl hleaf
  | succ depth ih =>
    have hgrows := growsTo_openLastChild hf hc
    have hopen : Beneath f c (f.openLastChild c) := by
      rw [openLastChild, hleaf]
      exact (beneath_addBelow hc _).congr size_modifyLabel fun j => children_modifyLabel
    exact hopen.trans (ih (hgrows.coherent hf) hgrows.lt hopen.leaf)

theorem beneath_addLine (hf : f.Coherent) (hc : c < f.size) (hleaf : f.children c = [])
    (line : Markup.Line) : Beneath f c (f.addLine c line) := by
  have hgrows := growsTo_openDown hf hc line.depth
  have hdown := beneath_openDown hf hc hleaf line.depth
  exact (hdown.trans (beneath_addBelow hgrows.lt _)).congr (size_raise ..) fun j => children_raise

/-- The node of a line is new, and nothing is below it. -/
theorem addLine_new (hf : f.Coherent) (hi : i < f.size) (line : Markup.Line) :
    f.size ≤ (f.addLine i line).1 ∧ (f.addLine i line).2.children (f.addLine i line).1 = [] := by
  have hgrows := growsTo_openDown hf hi line.depth
  refine ⟨(keeps_openDown hf hi line.depth).1.size_le, ?_⟩
  rw [addLine_eq, children_raise]
  exact children_addBelow_new hgrows.lt _

theorem openSegment_new (hf : f.Coherent) (hi : i < f.size) (folder : Text)
    (hnone : f.childNamed? i s = none) :
    f.size ≤ (openSegment folder i f s).1 ∧
      (openSegment folder i f s).2.children (openSegment folder i f s).1 = [] := by
  obtain ⟨f', heq, hcoherent, hsize, -, -⟩ := exists_openSegment_eq hf hi folder hnone
  rw [heq, ← hsize]
  exact addLine_new hcoherent (hsize ▸ hi) _

theorem beneath_openSegments (hf : f.Coherent) (hc : c < f.size) (hleaf : f.children c = [])
    (folder : Text) (names : List Text) : Beneath f c (openSegments folder c f names) := by
  induction names generalizing f c with
  | nil => exact .refl hleaf
  | cons s names ih =>
    have hgrows := growsTo_openSegment hf hc folder s
    have hnone : f.childNamed? c s = none := by rw [childNamed?, hleaf, List.find?_nil]
    have hopen : Beneath f c (openSegment folder c f s) := by
      obtain ⟨f', heq, hcoherent, hsize, hchildren, -⟩ := exists_openSegment_eq hf hc folder hnone
      have hadd := beneath_addLine hcoherent (hsize ▸ hc) ((hchildren c).trans hleaf)
        (Markup.Line.read s)
      rw [heq]
      exact ((Beneath.refl hleaf).congr hsize hchildren).trans hadd
    exact hopen.trans (ih (hgrows.coherent hf) hgrows.lt hopen.leaf)

/-! ## Finding a path -/

/-- Going down from the node by the first child of each name leads to `j`. -/
def Finds (f : Forest) : NodeId → List Text → NodeId → Prop
  | i, [], j => i = j
  | i, s :: names, j => ∃ c, f.childNamed? i s = some c ∧ Finds f c names j

/-- The names from the first one on for which there is no child. -/
def missing (f : Forest) : NodeId → List Text → List Text
  | _, [] => []
  | i, s :: names =>
    match f.childNamed? i s with
    | some c => missing f c names
    | none => s :: names

theorem missing_of_some (hc : f.childNamed? i s = some c) :
    f.missing i (s :: names) = f.missing c names := by
  rw [missing, hc]

theorem missing_of_none (hnone : f.childNamed? i s = none) :
    f.missing i (s :: names) = s :: names := by
  rw [missing, hnone]

/-- Below a node without children everything is missing. -/
theorem missing_of_leaf (hleaf : f.children i = []) (names : List Text) :
    f.missing i names = names := by
  cases names with
  | nil => rfl
  | cons s names => exact missing_of_none (by rw [childNamed?, hleaf, List.find?_nil])

theorem finds_congr (hchildren : ∀ j, g.children j = f.children j)
    (hname : ∀ j, (g.label j).name = (f.label j).name) : g.Finds i names j ↔ f.Finds i names j := by
  induction names generalizing i with
  | nil => rfl
  | cons s names ih => simp only [Finds, childNamed?, hchildren, hname, ih]

/-- Nothing is made on the way down to a node that is found. -/
theorem openSegments_of_finds (folder : Text) (h : f.Finds i names j) :
    openSegments folder i f names = (j, f) := by
  induction names generalizing i with
  | nil =>
    obtain rfl : i = j := h
    rfl
  | cons s names ih =>
    obtain ⟨c, hc, h⟩ := h
    rw [openSegments_cons, openSegment_eq, hc]
    exact ih h

/-- Where a path is not found, its node is new. -/
theorem size_le_openSegments (hf : f.Coherent) (hi : i < f.size) (folder : Text)
    (h : ∀ j, ¬f.Finds i names j) : f.size ≤ (openSegments folder i f names).1 := by
  induction names generalizing i with
  | nil => exact absurd rfl (h i)
  | cons s names ih =>
    rw [openSegments_cons]
    cases hc : f.childNamed? i s with
    | some c =>
      rw [openSegment_eq, hc]
      exact ih (hf.child_lt (List.mem_of_find?_eq_some hc)) fun j hj => h j ⟨c, hc, hj⟩
    | none =>
      have hgrows := growsTo_openSegment hf hi folder s
      obtain ⟨hnew, hleaf⟩ := openSegment_new hf hi folder hc
      have hbelow := beneath_openSegments (hgrows.coherent hf) hgrows.lt hleaf folder names
      rcases hbelow.place with hplace | hplace
      · exact hplace ▸ hnew
      · exact Nat.le_trans (keeps_openSegment hf hi folder s).size_le hplace

/-! ## Finding what was made -/

/-- The node that was made for a plain segment is found. -/
theorem childNamed?_openSegment_of_plain (hf : f.Coherent) (hi : i < f.size) (folder : Text)
    (hnone : f.childNamed? i s = none) (hs : Markup.Plain s) :
    (openSegment folder i f s).2.childNamed? i s = some (openSegment folder i f s).1 := by
  obtain ⟨hfst, hg⟩ := sprouts_openSegment folder hi hs hnone
  have hchildren := hg.children_eq i
  rw [if_pos rfl] at hchildren
  have hname := hg.name_eq f.size
  rw [if_pos rfl] at hname
  rw [(keeps_openSegment hf hi folder s).childNamed?_eq hf hchildren, hnone, Option.none_or, hfst]
  exact List.find?_cons_of_pos (decide_eq_true hname)

/-- The node that was made for another segment is not. -/
theorem childNamed?_openSegment_of_not_plain (hf : f.Coherent) (hi : i < f.size) (folder : Text)
    (hnone : f.childNamed? i s = none) (hne : s ≠ []) (hs : ¬Markup.Plain s) :
    (openSegment folder i f s).2.childNamed? i s = none := by
  obtain ⟨hkeeps, hnames⟩ := keeps_openSegment_of_none hf hi folder hnone
  obtain ⟨new, hnew, hle⟩ := hkeeps.exists_children_eq i
  rw [hkeeps.childNamed?_eq hf hnew, hnone, Option.none_or, List.find?_eq_none]
  intro d hd hname
  rw [decide_eq_true_eq] at hname
  rcases hnames d (hle d hd) with h | h
  · exact hne (hname.symm.trans h)
  · exact hs (Markup.plain_iff.2 (h.symm.trans hname))

/-- The node for a segment is found afterwards, if it was there or the segment is plain. -/
theorem childNamed?_openSegment (hf : f.Coherent) (hi : i < f.size) (folder : Text)
    (hs : f.childNamed? i s = none → Markup.Plain s) :
    (openSegment folder i f s).2.childNamed? i s = some (openSegment folder i f s).1 := by
  cases hc : f.childNamed? i s with
  | some c =>
    rw [openSegment_eq, hc]
    exact hc
  | none => exact childNamed?_openSegment_of_plain hf hi folder hc (hs hc)

/-- What is missing is the first segment, or is missing from its node on. -/
theorem forall_mem_missing_cons_iff (hf : f.Coherent) (hi : i < f.size) (folder : Text)
    {P : Text → Prop} : (∀ x ∈ f.missing i (s :: names), P x) ↔
      (f.childNamed? i s = none → P s) ∧
        ∀ x ∈ (openSegment folder i f s).2.missing (openSegment folder i f s).1 names, P x := by
  cases hc : f.childNamed? i s with
  | some c =>
    rw [missing_of_some hc, openSegment_eq, hc]
    simp
  | none =>
    rw [missing_of_none hc, missing_of_leaf (openSegment_new hf hi folder hc).2,
      List.forall_mem_cons, imp_iff_right rfl]

/-- Where the node of the first segment is found, the rest of the path is found from there on. -/
theorem finds_openSegments_cons_iff (hf : f.Coherent) (hi : i < f.size) (folder : Text)
    (hs : f.childNamed? i s = none → Markup.Plain s) :
    (openSegments folder i f (s :: names)).2.Finds i (s :: names) j ↔
      (openSegments folder (openSegment folder i f s).1 (openSegment folder i f s).2 names).2.Finds
        (openSegment folder i f s).1 names j := by
  have hgrows := growsTo_openSegment hf hi folder s
  have hkeeps := keeps_openSegments (hgrows.coherent hf) hgrows.lt folder names
  have hfirst := hkeeps.childNamed?_eq_some (hgrows.coherent hf)
    (childNamed?_openSegment hf hi folder hs)
  simp only [openSegments_cons, Finds, hfirst, Option.some.injEq, exists_eq_left']

/-- What was made of plain segments is found. -/
theorem finds_openSegments (hf : f.Coherent) (hi : i < f.size) (folder : Text)
    (h : ∀ s ∈ f.missing i names, Markup.Plain s) :
    (openSegments folder i f names).2.Finds i names (openSegments folder i f names).1 := by
  induction names generalizing f i with
  | nil => rfl
  | cons s names ih =>
    have hgrows := growsTo_openSegment hf hi folder s
    obtain ⟨hs, hrest⟩ := (forall_mem_missing_cons_iff hf hi folder).1 h
    exact (finds_openSegments_cons_iff hf hi folder hs).2
      (ih (hgrows.coherent hf) hgrows.lt hrest)

/-- What was made of other segments is not found. -/
theorem not_finds_openSegments (hf : f.Coherent) (hi : i < f.size) (folder : Text)
    (hne : ∀ s ∈ names, s ≠ []) (h : ¬∀ s ∈ f.missing i names, Markup.Plain s) (j : NodeId) :
    ¬(openSegments folder i f names).2.Finds i names j := by
  induction names generalizing f i with
  | nil => exact absurd (fun s hs => absurd hs List.not_mem_nil) h
  | cons s names ih =>
    obtain ⟨hsne, hne⟩ := List.forall_mem_cons.1 hne
    have hgrows := growsTo_openSegment hf hi folder s
    have hcoherent := hgrows.coherent hf
    rw [forall_mem_missing_cons_iff hf hi folder] at h
    by_cases hs : f.childNamed? i s = none → Markup.Plain s
    · rw [finds_openSegments_cons_iff hf hi folder hs]
      exact ih hcoherent hgrows.lt hne fun hrest => h ⟨hs, hrest⟩
    · -- The node has another name, and `i` gets no more children.
      obtain ⟨hnone, hs⟩ := Classical.not_imp.1 hs
      obtain ⟨hnew, hleaf⟩ := openSegment_new hf hi folder hnone
      have hbeneath := beneath_openSegments hcoherent hgrows.lt hleaf folder names
      have hchildren := hbeneath.children_eq i
        (Nat.lt_of_lt_of_le hi (keeps_openSegment hf hi folder s).size_le)
        (Nat.ne_of_lt (Nat.lt_of_lt_of_le hi hnew))
      have hkeeps := keeps_openSegments hcoherent hgrows.lt folder names
      rintro ⟨d, hd, -⟩
      rw [openSegments_cons,
        hkeeps.childNamed?_eq hcoherent (hchildren.trans (List.append_nil _).symm),
        childNamed?_openSegment_of_not_plain hf hi folder hnone hsne hs] at hd
      cases hd

/-! ## Looking up again -/

theorem ne_nil_of_mem_segments {path : Text} (h : s ∈ segments path) : s ≠ [] := by
  have hnonempty := (List.mem_filter.1 h).2
  rintro rfl
  cases hnonempty

/-- Of two icons, the second one is shown. -/
theorem setIcon_setIcon (f : Forest) (i : NodeId) (x y : Text) :
    (f.setIcon i x).setIcon i y = f.setIcon i y := by
  have hsize : (f.setIcon i x).size = f.size := size_modifyLabel
  refine eq_of_reads (size_modifyLabel.trans (hsize.trans size_modifyLabel.symm)) (fun j => ?_)
    (fun j => ?_) fun j => ?_
  · rw [label_setIcon, label_setIcon, label_setIcon, hsize]
    split <;> rfl
  · simp only [setIcon, parent_modifyLabel]
  · simp only [setIcon, children_modifyLabel]

/-- The second lookup of a path leads to the node of the first one if and only if every segment was
plain for which the first one made a node. Then it changes nothing. -/
theorem fileNode_again_iff (hf : f.Coherent) (hi : i < f.size) (path folder file : Text) :
    (((f.fileNode i path folder file).2.fileNode i path folder file).1 =
        (f.fileNode i path folder file).1 ↔
      ∀ s ∈ f.missing i (segments path), Markup.Plain s) ∧
    ((f.fileNode i path folder file).2.fileNode i path folder file =
        f.fileNode i path folder file ↔
      ∀ s ∈ f.missing i (segments path), Markup.Plain s) := by
  have hgrows := growsTo_openSegments hf hi folder (segments path)
  simp only [fileNode_eq]
  generalize hr : openSegments folder i f (segments path) = r at hgrows
  have hlabels (j : NodeId) : ((r.2.setIcon r.1 file).label j).name = (r.2.label j).name := by
    rw [label_setIcon]
    split <;> rfl
  have hfinds (j : NodeId) :
      (r.2.setIcon r.1 file).Finds i (segments path) j ↔ r.2.Finds i (segments path) j :=
    finds_congr (fun _ => children_modifyLabel) hlabels
  by_cases hplain : ∀ s ∈ f.missing i (segments path), Markup.Plain s
  · have hfound := finds_openSegments hf hi folder hplain
    rw [hr] at hfound
    rw [openSegments_of_finds folder ((hfinds r.1).2 hfound)]
    exact ⟨iff_of_true rfl hplain,
      iff_of_true (Prod.ext rfl (setIcon_setIcon r.2 r.1 file file)) hplain⟩
  · have hnot := not_finds_openSegments hf hi folder (fun s => ne_nil_of_mem_segments) hplain
    rw [hr] at hnot
    have hsize : (r.2.setIcon r.1 file).size = r.2.size := size_modifyLabel
    have hi' : i < (r.2.setIcon r.1 file).size :=
      hsize ▸ Nat.lt_of_lt_of_le hi hgrows.growth.size_le
    have hcoherent : (r.2.setIcon r.1 file).Coherent := (hgrows.coherent hf).modifyLabel _
    have hnew := size_le_openSegments hcoherent hi' folder fun j hj => hnot j ((hfinds j).1 hj)
    have hne := Nat.ne_of_gt (Nat.lt_of_lt_of_le (hsize ▸ hgrows.lt) hnew)
    exact ⟨iff_of_false hne hplain, iff_of_false (fun h => hne (Prod.ext_iff.1 h).1) hplain⟩

/-- A file is made next to another one in a folder, and found there the second time. -/
theorem fileNode_again_iff_beside :
    let f := ((empty.addRoot "Build").2.fileNode 0 "src/main.c" "folder" "file").2
    (f.fileNode 0 "src//util.c" "folder" "file").2.fileNode 0 "src//util.c" "folder" "file" =
      f.fileNode 0 "src//util.c" "folder" "file" := by
  intro f
  have hroot : (empty.addRoot "Build").2.Coherent := coherent_empty.addRoot "Build"
  have hf : f.Coherent := (growsTo_fileNode hroot (by decide) ..).coherent hroot
  exact (fileNode_again_iff hf (i := 0) (by decide) "src//util.c" "folder" "file").2.2 (by decide)

/-- A segment with a marker makes a node with another name, and another such node next to it the
second time. -/
theorem not_fileNode_again :
    ¬∀ (f : Forest) (i : NodeId) (path folder file : Text), f.Coherent → i < f.size →
      (f.fileNode i path folder file).2.fileNode i path folder file =
        f.fileNode i path folder file := by
  intro h
  have hagain := h (empty.addRoot "Build").2 0 "x Broken" "folder" "file"
    (coherent_empty.addRoot "Build") (by decide)
  have hnode : (((empty.addRoot "Build").2.fileNode 0 "x Broken" "folder" "file").2.fileNode 0
      "x Broken" "folder" "file").1 ≠
        ((empty.addRoot "Build").2.fileNode 0 "x Broken" "folder" "file").1 := by decide
  exact hnode (congrArg Prod.fst hagain)

end Forest

end ReportTree
