import Mathlib.Data.List.Induction
import ReportTree.Proofs.Forest.Rising

/-!
# Names on the way down

The names of the nodes on the way down from a node, and the path that they spell. Where no two
children have the same name the names lead to one node; a node without a parent on top, they are the
only names that lead there.

* `Distinct.eq_of_leads`, `Coherent.names_eq_of_leads`: names and nodes determine each other.
* `spells_iff`: a path is spelled by the names that lead to a node.
* `Holds.places_tree`, `Holds.mem_places_iff`: the places of the tree that is seen are those where
  names lead to.
-/

namespace ReportTree

namespace Tree

mutual

/-- The nodes below the root, each with everything below it and with the names on the way down to
it, after those `above`. -/
def placesBelow (above : List Text) : Tree → List (List Text × Tree)
  | .node _ ts => placesAll above ts

/-- The nodes of trees, each with everything below it and with the names on the way down to it. -/
def placesAll (above : List Text) : List Tree → List (List Text × Tree)
  | [] => []
  | t :: ts =>
    (above ++ [t.label.name], t) ::
      (placesBelow (above ++ [t.label.name]) t ++ placesAll above ts)

end

/-- The nodes of a tree, each with everything below it and with the names from just below the root
down to it. -/
def places (t : Tree) : List (List Text × Tree) := ([], t) :: t.placesBelow []

end Tree

/-- The path that names make, with a slash before each of them. -/
def Text.slashed (names : List Text) : Text := names.flatMap (.scalar '/' :: ·)

theorem Text.slash_eq : ("/" : Text) = [.scalar '/'] := rfl

/-- Between the names there are the same slashes. -/
theorem Text.drop_slashed (names : List Text) : (slashed names).drop 1 = join "/" names := by
  have hcons (s : Text) (names : List Text) : join "/" (s :: names) = s ++ slashed names := by
    induction names generalizing s with
    | nil => simp [slashed, join]
    | cons t names ih =>
      rw [join, ih, slashed, slashed, List.flatMap_cons, List.append_assoc]
      · rfl
      · exact List.cons_ne_nil t names
  cases names with
  | nil => rfl
  | cons s names => rw [hcons]; rfl

namespace Forest

/-- The way down from the node through nodes with these names, or one of several such ways, leads to
`j`. -/
def Leads (f : Forest) : NodeId → List Text → NodeId → Prop
  | i, [], j => i = j
  | i, s :: names, j => ∃ c ∈ f.children i, (f.label c).name = s ∧ Leads f c names j

/-- No two children of a node have the same name. -/
def Distinct (f : Forest) : Prop :=
  ∀ i, ∀ c ∈ f.children i, ∀ d ∈ f.children i, (f.label c).name = (f.label d).name → c = d

variable {f g : Forest} {i j k r : NodeId} {names names' : List Text} {s : Text}

theorem leads_append_iff :
    f.Leads i (names ++ names') j ↔ ∃ k, f.Leads i names k ∧ f.Leads k names' j := by
  induction names generalizing i with
  | nil => simp [Leads]
  | cons s names ih =>
    simp only [List.cons_append, Leads, ih]
    constructor
    · rintro ⟨c, hc, hs, k, hk, hj⟩
      exact ⟨k, ⟨c, hc, hs, hk⟩, hj⟩
    · rintro ⟨k, ⟨c, hc, hs, hk⟩, hj⟩
      exact ⟨c, hc, hs, k, hk, hj⟩

theorem leads_concat_iff : f.Leads i (names ++ [s]) j ↔
    ∃ k, f.Leads i names k ∧ j ∈ f.children k ∧ (f.label j).name = s := by
  rw [leads_append_iff]
  refine exists_congr fun k => and_congr_right fun _ => ?_
  constructor
  · rintro ⟨c, hc, hs, rfl⟩
    exact ⟨hc, hs⟩
  · rintro ⟨hj, hs⟩
    exact ⟨j, hj, hs, rfl⟩

theorem leads_congr (hchildren : ∀ j, g.children j = f.children j)
    (hname : ∀ j, (g.label j).name = (f.label j).name) : g.Leads i names j ↔ f.Leads i names j := by
  induction names generalizing i with
  | nil => rfl
  | cons s names ih => simp only [Leads, hchildren, hname, ih]

theorem Leads.within (h : f.Leads i names j) : f.Within i j := by
  induction names generalizing i with
  | nil => exact h ▸ .refl
  | cons s names ih =>
    obtain ⟨c, hc, -, h⟩ := h
    exact .head hc (ih h)

theorem Within.exists_leads (h : f.Within i j) : ∃ names, f.Leads i names j := by
  induction h with
  | refl => exact ⟨[], rfl⟩
  | @tail k c _ hc ih =>
    obtain ⟨names, hk⟩ := ih
    exact ⟨names ++ [(f.label c).name], leads_concat_iff.2 ⟨k, hk, hc, rfl⟩⟩

theorem Distinct.eq_of_leads (hf : f.Distinct) (hj : f.Leads i names j) (hk : f.Leads i names k) :
    j = k := by
  induction names generalizing i with
  | nil => exact hj.symm.trans hk
  | cons s names ih =>
    obtain ⟨c, hc, hcs, hj⟩ := hj
    obtain ⟨d, hd, hds, hk⟩ := hk
    rw [← hf i c hc d hd (hcs.trans hds.symm)] at hk
    exact ih hj hk

/-- Each node is listed once, and the one on top nowhere. -/
theorem Coherent.names_eq_of_leads (hf : f.Coherent) (hr : f.parent r = none)
    (h : f.Leads r names j) (h' : f.Leads r names' j) : names = names' := by
  induction names using List.reverseRecOn generalizing names' j with
  | nil =>
    obtain rfl : r = j := h
    cases names' using List.reverseRecOn with
    | nil => rfl
    | append_singleton names' s =>
      obtain ⟨k, -, hj, -⟩ := leads_concat_iff.1 h'
      exact absurd hj (hf.not_mem_children hr)
  | append_singleton names s ih =>
    obtain ⟨k, hk, hj, hs⟩ := leads_concat_iff.1 h
    cases names' using List.reverseRecOn with
    | nil =>
      obtain rfl : r = j := h'
      exact absurd hj (hf.not_mem_children hr)
    | append_singleton names' s' =>
      obtain ⟨k', hk', hj', hs'⟩ := leads_concat_iff.1 h'
      rw [hf.eq_of_mem hj' hj] at hk'
      rw [ih hk hk', ← hs, ← hs']

/-! ## Paths -/

/-- The way down from the node to `j` spells a path, with a slash before each name. -/
inductive Spells (f : Forest) (j : NodeId) : NodeId → Text → Prop
  | here : Spells f j j []
  | step {i c : NodeId} {t : Text} (hc : c ∈ f.children i) (h : Spells f j c t) :
      Spells f j i (.scalar '/' :: (f.label c).name ++ t)

theorem spells_iff {t : Text} :
    f.Spells j i t ↔ ∃ names, f.Leads i names j ∧ Text.slashed names = t := by
  constructor
  · intro h
    induction h with
    | here => exact ⟨[], rfl, rfl⟩
    | @step i c t hc _ ih =>
      obtain ⟨names, hnames, rfl⟩ := ih
      exact ⟨(f.label c).name :: names, ⟨c, hc, rfl, hnames⟩, rfl⟩
  · rintro ⟨names, hnames, rfl⟩
    induction names generalizing i with
    | nil =>
      obtain rfl : i = j := hnames
      exact .here
    | cons s names ih =>
      obtain ⟨c, hc, rfl, hnames⟩ := hnames
      exact .step hc (ih hnames)

/-! ## Places -/

/-- The nodes of a row with the names on the way down to them, after those `above`. -/
def Row.places (label : NodeId → Label) (above : List Text) : Row → List (List Text × NodeId)
  | nil => []
  | cons i below rest =>
    (above ++ [(label i).name], i) ::
      (below.places label (above ++ [(label i).name]) ++ rest.places label above)

theorem Row.map_snd_places (label : NodeId → Label) (above : List Text) (w : Row) :
    (w.places label above).map Prod.snd = w.nodes := by
  induction w generalizing above with
  | nil => rfl
  | cons i below rest hb hr => rw [places, List.map_cons, List.map_append, hb, hr, nodes]

theorem Lists.mem_places_iff {w : Row} (h : f.Lists w) {above : List Text} :
    (names, j) ∈ w.places f.label above ↔
      ∃ c ∈ w.heads, ∃ rest, names = above ++ (f.label c).name :: rest ∧ f.Leads c rest j := by
  induction w generalizing above with
  | nil => simp [Row.places, Row.heads]
  | cons i below rest hb hr =>
    obtain ⟨hchildren, hbelow, hrest⟩ := h
    rw [Row.places, List.mem_cons, List.mem_append, hb hbelow, hr hrest, Row.heads, ← hchildren]
    simp only [List.mem_cons, exists_eq_or_imp, ← or_assoc]
    refine or_congr_left ?_
    constructor
    · rintro (h | ⟨c, hc, more, rfl, hleads⟩)
      · cases h
        exact ⟨[], rfl, rfl⟩
      · exact ⟨(f.label c).name :: more, by simp, c, hc, rfl, hleads⟩
    · rintro ⟨more, rfl, hleads⟩
      cases more with
      | nil =>
        obtain rfl : i = j := hleads
        exact .inl rfl
      | cons s more =>
        obtain ⟨c, hc, rfl, hleads⟩ := hleads
        exact .inr ⟨c, hc, more, by simp, hleads⟩

theorem Lists.placesAll_trees {w : Row} (h : f.Lists w) (hheight : w.height ≤ f.size + 1)
    (above : List Text) :
    Tree.placesAll above (w.trees f.label) =
      (w.places f.label above).map fun p => (p.1, f.tree p.2) := by
  induction w generalizing above with
  | nil => rfl
  | cons i below rest hb hr =>
    obtain ⟨hchildren, hbelow, hrest⟩ := h
    simp only [Row.height] at hheight
    have htree : f.tree i = .node (f.label i) (below.trees f.label) := by
      have hsingle : f.Lists (.cons i below .nil) := ⟨hchildren, hbelow, trivial⟩
      have hle : (Row.cons i below .nil).height ≤ f.size + 1 := by
        simp only [Row.height]
        omega
      exact hsingle.tree_eq hle
    rw [Row.trees, Tree.placesAll, Tree.placesBelow, hr hrest (by omega), Tree.label,
      hb hbelow (by omega), Row.places, List.map_cons, List.map_append, htree]

/-- The places of the tree that is seen below a node are the node and those of the row there. -/
theorem Holds.places_tree {below : Row} (h : f.Holds (.cons i below .nil)) :
    (f.tree i).places =
      (([], i) :: below.places f.label []).map fun p => (p.1, f.tree p.2) := by
  have hheight := h.height_le
  simp only [Row.height] at hheight
  have hplaces := h.lists.2.1.placesAll_trees (by omega) []
  rw [List.map_cons, ← hplaces, Tree.places, h.tree_eq, Tree.placesBelow]

/-- They are where names lead to from the node. -/
theorem Holds.mem_places_iff {below : Row} (h : f.Holds (.cons i below .nil)) :
    (names, j) ∈ ([], i) :: below.places f.label [] ↔ f.Leads i names j := by
  obtain ⟨hchildren, hbelow, -⟩ := h.lists
  rw [List.mem_cons, hbelow.mem_places_iff, ← hchildren]
  cases names with
  | nil =>
    constructor
    · rintro (h | ⟨c, hc, rest, hnames, -⟩)
      · cases h
        rfl
      · cases hnames
    · intro h
      obtain rfl : i = j := h
      exact .inl rfl
  | cons s names =>
    constructor
    · rintro (h | ⟨c, hc, rest, hnames, hleads⟩)
      · cases h
      · cases hnames
        exact ⟨c, hc, rfl, hleads⟩
    · rintro ⟨c, hc, rfl, hleads⟩
      exact .inr ⟨c, hc, names, rfl, hleads⟩

end Forest

end ReportTree
