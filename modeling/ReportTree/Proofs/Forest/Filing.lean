import ReportTree.Proofs.Forest.Chain
import ReportTree.Proofs.Forest.Laid
import ReportTree.Proofs.Forest.Revisit
import ReportTree.Proofs.Forest.Run

/-!
# The effect of looking up a path

A plain path is followed by the first child of each name as far as there is one. What is missing
then is made below the last node that was found, one node below the other. Only that node and the
returned one can get another icon: the one gets that of folders if it had none and gets a child, the
other that of files.

* `exists_finds_missing`: the beginning of a path that is found, and where it leads to.
* `Filed`: what has become of a forest where missing segments were made.
* `fileNode_effect`: what looking up a plain path comes to, in every forest.
-/

namespace ReportTree.Forest

/-- `g` comes of `f` by making a chain of nodes below `d` with the names `made`. A node that gets a
child and has no icon, as all new ones at first, is a folder then. -/
structure Filed (folder : Text) (f : Forest) (d : NodeId) (made : List Text) (g : Forest) :
    Prop where
  chained : f.Chained d made.length g
  label_new : ∀ (m : Nat) (s : Text), made[m]? = some s →
    g.label (f.size + m) = { name := s, icon := if m + 1 = made.length then [] else folder }
  label_old : ∀ k < f.size, g.label k =
    if k = d ∧ made ≠ [] ∧ (f.label k).icon = [] then { f.label k with icon := folder }
    else f.label k

variable {f g : Forest} {i j d : NodeId} {folder s : Text} {names names' made : List Text}

/-! ## What is found -/

/-- A path is a beginning that is found, and what is missing from there on. -/
theorem exists_finds_missing (f : Forest) (i : NodeId) (names : List Text) :
    ∃ found d, names = found ++ f.missing i names ∧ f.Finds i found d ∧
      ∀ s ∈ (f.missing i names).head?, f.childNamed? d s = none := by
  induction names generalizing i with
  | nil => exact ⟨[], i, rfl, rfl, by simp [missing]⟩
  | cons s names ih =>
    cases hc : f.childNamed? i s with
    | some c =>
      obtain ⟨found, d, hnames, hfound, hnone⟩ := ih c
      rw [missing_of_some hc]
      exact ⟨s :: found, d, congrArg (s :: ·) hnames, ⟨c, hc, hfound⟩, hnone⟩
    | none =>
      rw [missing_of_none hc]
      exact ⟨[], i, rfl, rfl, by simpa using hc⟩

theorem Finds.lt (h : f.Finds i names j) (hf : f.Coherent) (hi : i < f.size) : j < f.size := by
  induction names generalizing i with
  | nil => exact h ▸ hi
  | cons s names ih =>
    obtain ⟨c, hc, h⟩ := h
    exact ih h (hf.child_lt (List.mem_of_find?_eq_some hc))

/-! ## What is made -/

theorem openSegments_append (folder : Text) (i : NodeId) (f : Forest) (names names' : List Text) :
    openSegments folder i f (names ++ names') =
      openSegments folder (openSegments folder i f names).1 (openSegments folder i f names).2
        names' := by
  induction names generalizing i f with
  | nil => rfl
  | cons s names ih =>
    simp only [List.cons_append, openSegments_cons]
    exact ih ..

/-- A plain segment makes a node with nothing but its name. -/
theorem openSegment_of_plain (folder : Text) (hs : Markup.Plain s)
    (hnone : f.childNamed? i s = none) : openSegment folder i f s =
      (if (f.label i).icon.isEmpty then f.setIcon i folder else f).addBelow i { name := s } := by
  rw [openSegment_eq, hnone]
  dsimp only
  rw [addChild_of_plain hs, raise_none lt_size_addBelow (by rw [level_addBelow, if_pos rfl])]
  rfl

theorem Filed.refl (folder : Text) (f : Forest) (d : NodeId) : Filed folder f d [] f where
  chained := .refl f d
  label_new m s h := by simp at h
  label_old k _ := by simp

/-- For one more segment a node is made at the end of the chain. -/
theorem Filed.openSegment (h : Filed folder f d made g) (hd : d < f.size) (hs : Markup.Plain s)
    (hnone : g.childNamed? (f.chainEnd d made.length) s = none) :
    (Forest.openSegment folder (f.chainEnd d made.length) g s).1 = f.chainEnd d (made.length + 1) ∧
      Filed folder f d (made ++ [s])
        (Forest.openSegment folder (f.chainEnd d made.length) g s).2 := by
  have hsize := h.chained.size_eq
  have hlabel (k : NodeId) := label_openSegment folder k (h.chained.end_lt hd) hs hnone
  have hopen := openSegment_of_plain folder hs hnone
  have hmarked : f.Chained d made.length
      (if (g.label (f.chainEnd d made.length)).icon.isEmpty then
        g.setIcon (f.chainEnd d made.length) folder else g) := by
    split
    · exact h.chained.modifyLabel ..
    · exact h.chained
  refine ⟨?_, ?_, fun m t ht => ?_, fun k hk => ?_⟩
  · rw [hopen, addBelow_fst, hmarked.size_eq]
    rfl
  · rw [hopen, List.length_append]
    exact hmarked.addBelow hd
  · rw [hlabel, hsize, List.length_append, List.length_singleton]
    by_cases hm : m = made.length
    · subst hm
      obtain rfl : s = t := by simpa using ht
      simp
    · have hlt : m < made.length := by
        have hbound := (List.getElem?_eq_some_iff.1 ht).1
        rw [List.length_append, List.length_singleton] at hbound
        omega
      rw [List.getElem?_append_left hlt] at ht
      rw [if_neg fun heq => hm (Nat.add_left_cancel heq), h.label_new m t ht]
      by_cases hend : m + 1 = made.length <;> simp [chainEnd_eq_new_iff hd, hend, hm]
  · rw [hlabel, hsize, if_neg (Nat.ne_of_lt (Nat.lt_add_right _ hk)), h.label_old k hk]
    simp only [chainEnd_eq_old_iff hk, List.length_eq_zero_iff, eq_comm (a := d)]
    by_cases hmade : made = [] <;> simp [hmade]

/-- Missing segments become a chain of nodes. -/
theorem filed_openSegments (folder : Text) (hd : d < f.size) (hplain : ∀ s ∈ made, Markup.Plain s)
    (hnone : ∀ s ∈ made.head?, f.childNamed? d s = none) :
    (openSegments folder d f made).1 = f.chainEnd d made.length ∧
      Filed folder f d made (openSegments folder d f made).2 := by
  induction made using List.reverseRecOn with
  | nil => exact ⟨rfl, .refl folder f d⟩
  | append_singleton made s ih =>
    have hplain' : ∀ s ∈ made, Markup.Plain s := fun s hs => hplain s (List.mem_append_left _ hs)
    obtain ⟨hend, hfiled⟩ := ih hplain' fun x hx => hnone x (List.mem_head?_append_of_mem_head? hx)
    have hnew :
        (openSegments folder d f made).2.childNamed? (f.chainEnd d made.length) s = none := by
      cases made with
      | nil => exact hnone s rfl
      | cons x made =>
        rw [childNamed?, List.length_cons, hfiled.chained.children_end, List.find?_nil]
    rw [openSegments_append, hend, List.length_append]
    exact hfiled.openSegment hd (hplain s (by simp)) hnew

/-! ## Looking up a path -/

/-- The last segment becomes a file, or the node that was found if nothing is missing. -/
theorem Filed.label_setIcon (h : Filed folder f d made g) (hd : d < f.size) (file : Text) :
    (∀ (m : Nat) (s : Text), made[m]? = some s →
      (g.setIcon (f.chainEnd d made.length) file).label (f.size + m) =
        { name := s, icon := if m + 1 = made.length then file else folder }) ∧
    ∀ k < f.size, (g.setIcon (f.chainEnd d made.length) file).label k =
      if k = d then
        { f.label k with
          icon := if made = [] then file else if (f.label k).icon = [] then folder
            else (f.label k).icon }
      else f.label k := by
  have hend := h.chained.end_lt hd
  refine ⟨fun m s hs => ?_, fun k hk => ?_⟩
  · rw [Forest.label_setIcon, h.label_new m s hs]
    by_cases hlast : m + 1 = made.length <;> simp [chainEnd_eq_new_iff hd, hend, hlast]
  · rw [Forest.label_setIcon, h.label_old k hk]
    simp only [chainEnd_eq_old_iff hk, List.length_eq_zero_iff, eq_comm (a := d), hend, and_true]
    by_cases hkd : k = d
    · by_cases hmade : made = []
      · simp [hkd, hmade]
      · by_cases hicon : (f.label d).icon = [] <;> simp [hkd, hmade, hicon]
    · simp [hkd]

/-- Looking up a plain path in any forest. The beginning of the path leads by the first child of each
name to a node `d`, which has no child with the name that comes next. A chain of nodes is made below
`d` for the names that are missing, and the whole path leads to the last of them, or to `d` if none
is. That node is a file then, those above it in the chain are folders, and so is `d` if it gets a
child and had no icon. Nothing else changes. -/
theorem fileNode_effect (hf : f.Coherent) (hi : i < f.size) {path : Text}
    (hplain : ∀ s ∈ segments path, Markup.Plain s) (folder file : Text) :
    ∃ found made d, segments path = found ++ made ∧ f.Finds i found d ∧
      (∀ s ∈ made.head?, f.childNamed? d s = none) ∧
      let j := (f.fileNode i path folder file).1
      let g := (f.fileNode i path folder file).2
      j = f.chainEnd d made.length ∧ g.Finds i (segments path) j ∧ (g.label j).icon = file ∧
      f.Chained d made.length g ∧
      (∀ (m : Nat) (s : Text), made[m]? = some s → g.label (f.size + m) =
        { name := s, icon := if m + 1 = made.length then file else folder }) ∧
      ∀ k < f.size, g.label k =
        if k = d then
          { f.label k with
            icon := if made = [] then file else if (f.label k).icon = [] then folder
              else (f.label k).icon }
        else f.label k := by
  obtain ⟨found, d, hnames, hfound, hnone⟩ := exists_finds_missing f i (segments path)
  have hd := hfound.lt hf hi
  have hmissing : ∀ s ∈ f.missing i (segments path), Markup.Plain s := fun s hs =>
    hplain s (hnames ▸ List.mem_append_right found hs)
  have hfinds := finds_openSegments hf hi folder hmissing
  have hopen : openSegments folder i f (segments path) =
      openSegments folder d f (f.missing i (segments path)) := by
    conv_lhs => rw [hnames, openSegments_append, openSegments_of_finds folder hfound]
  obtain ⟨hend, hfiled⟩ := filed_openSegments folder hd hmissing hnone
  generalize f.missing i (segments path) = made at *
  refine ⟨found, made, d, hnames, hfound, hnone, ?_⟩
  simp only [fileNode_eq]
  rw [hopen] at hfinds ⊢
  rw [hend] at hfinds ⊢
  obtain ⟨hnew, hold⟩ := hfiled.label_setIcon hd file
  refine ⟨rfl, ?_, ?_, hfiled.chained.modifyLabel .., hnew, hold⟩
  · refine (finds_congr (fun _ => children_modifyLabel) fun j => ?_).2 hfinds
    rw [label_modifyLabel]
    split <;> rfl
  · rw [label_setIcon, if_pos ⟨rfl, hfiled.chained.end_lt hd⟩]

/-- Two nodes of the same name, of which the first one is taken, and two segments that are missing
below it. It had no icon. -/
theorem fileNode_effect_beside :
    ∃ f g : Forest, f.Coherent ∧ (f.label 1).name = "src" ∧ (f.label 2).name = "src" ∧
      f.fileNode 0 "src//lib/a.c" "folder" "file" = (4, g) ∧ g.Finds 0 ["src", "lib", "a.c"] 4 ∧
      f.Chained 1 2 g ∧ g.label 1 = { f.label 1 with icon := "folder" } ∧
      g.label 2 = f.label 2 ∧ g.label 3 = { name := "lib", icon := "folder" } ∧
      g.label 4 = { name := "a.c", icon := "file" } := by
  have hroot := (fresh_empty.addRoot "Build").coherent.addBelow (i := 0) (by decide)
    (x := { name := "src", level := .warn })
  have hf := hroot.addBelow (i := 0) (by decide) (x := { name := "src" })
  have hsegments : segments "src//lib/a.c" = (["src", "lib", "a.c"] : List Text) := by decide
  have hplain : ∀ s ∈ segments "src//lib/a.c", Markup.Plain s := by decide
  obtain ⟨found, made, d, hnames, hfound, hnone, hadd⟩ :=
    fileNode_effect hf (i := 0) (by decide) hplain "folder" "file"
  rw [hsegments] at hnames hadd
  match found with
  | [] =>
    obtain rfl : 0 = d := hfound
    obtain rfl : (["src", "lib", "a.c"] : List Text) = made := hnames
    exact absurd (hnone "src" rfl) (by decide)
  | [_] =>
    obtain ⟨rfl, rfl⟩ := List.cons.inj hnames
    obtain ⟨c, hc, rfl⟩ := hfound
    obtain rfl : 1 = c := Option.some.inj hc
    obtain ⟨-, hfinds, -, hchained, hnew, hold⟩ := hadd
    exact ⟨_, _, hf, by decide, by decide, rfl, hfinds, hchained, hold 1 (by decide),
      hold 2 (by decide), hnew 0 "lib" rfl, hnew 1 "a.c" rfl⟩
  | s :: t :: found =>
    simp only [List.cons_append, List.cons.injEq] at hnames
    obtain ⟨rfl, rfl, -⟩ := hnames
    obtain ⟨c, hc, b, hb, -⟩ := hfound
    obtain rfl : 1 = c := Option.some.inj hc
    cases hb

end ReportTree.Forest
