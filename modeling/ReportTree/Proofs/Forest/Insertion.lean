import ReportTree.Forest.Path
import ReportTree.Proofs.Forest.Growth
import ReportTree.Proofs.Forest.Naming

/-!
# Inserting file paths

The node of a path is found or made segment by segment. Where segments are plain, a node is reached
by the segments of a path, and it is a file if and only if that path was inserted; all other nodes
below the root are folders with something in them.

* `sprouts_openSegment`: what making the node of a segment changes.
* `Inserted.openSegment`, `Inserted.openSegments`: going down a path keeps the plan of the tree.
* `Inserted.fileNode`: the node of a path becomes a file.
-/

namespace ReportTree

/-- A line that says nothing but its label. -/
def Markup.Plain (s : Text) : Prop :=
  Markup.Line.read s = { depth := 0, level := .none, icon := [], name := s }

instance (s : Text) : Decidable (Markup.Plain s) :=
  inferInstanceAs (Decidable (Markup.Line.read s = _))

namespace Forest

/-- `g` comes of `f` by making a child of `i` with the name `s`. If `i` had no icon, it is a folder
now. -/
structure Sprouts (folder : Text) (f : Forest) (i : NodeId) (s : Text) (g : Forest) : Prop where
  children_eq : ∀ j, g.children j = if i = j then f.children j ++ [f.size] else f.children j
  parent_eq : ∀ j, g.parent j = if j = f.size then some i else f.parent j
  name_eq : ∀ j, (g.label j).name = if j = f.size then s else (f.label j).name
  icon_eq : ∀ j, (g.label j).icon =
    if j = f.size then [] else if i = j ∧ (f.label j).icon = [] then folder else (f.label j).icon

variable {f g : Forest} {i j r c : NodeId} {folder file s : Text} {names before : List Text}

/-- A plain line makes a node with its label and without a level. -/
theorem addChild_of_plain (hs : Markup.Plain s) :
    f.addChild i s = (f.size, (f.addBelow i { name := s }).2.raise f.size .none) := by
  rw [addChild, addLine_eq, show Markup.Line.read s = _ from hs]
  rfl

/-- A node without an icon gets the one of folders. -/
theorem markFolder_spec (hi : i < f.size)
    (hg : (if (f.label i).icon.isEmpty then f.setIcon i folder else f) = g) :
    g.size = f.size ∧ (∀ j, g.children j = f.children j) ∧ (∀ j, g.parent j = f.parent j) ∧
      (∀ j, (g.label j).name = (f.label j).name) ∧
      ∀ j, (g.label j).icon =
        if i = j ∧ (f.label j).icon = [] then folder else (f.label j).icon := by
  subst hg
  split
  · next hicon =>
    rw [List.isEmpty_iff] at hicon
    refine ⟨size_modifyLabel, fun j => children_modifyLabel, fun j => parent_modifyLabel,
      fun j => ?_, fun j => ?_⟩
    · rw [label_setIcon]
      split <;> rfl
    · rw [label_setIcon]
      by_cases hij : i = j
      · subst hij
        rw [if_pos ⟨rfl, hi⟩, if_pos ⟨rfl, hicon⟩]
      · rw [if_neg fun h => hij h.1, if_neg fun h => hij h.1]
  · next hicon =>
    rw [List.isEmpty_iff] at hicon
    refine ⟨rfl, fun _ => rfl, fun _ => rfl, fun _ => rfl, fun j => ?_⟩
    rw [if_neg]
    rintro ⟨rfl, h⟩
    exact hicon h

/-- The node gets its icon before the child is made. -/
theorem sprouts_openSegment (folder : Text) (hi : i < f.size) (hs : Markup.Plain s)
    (hnone : f.childNamed? i s = none) :
    (openSegment folder i f s).1 = f.size ∧ Sprouts folder f i s (openSegment folder i f s).2 := by
  obtain ⟨f', hf'⟩ :
      ∃ f', (if (f.label i).icon.isEmpty then f.setIcon i folder else f) = f' := ⟨_, rfl⟩
  obtain ⟨hsize, hchildren, hparent, hname, hicon⟩ := markFolder_spec hi hf'
  rw [openSegment_eq, hnone]
  dsimp only
  rw [hf', addChild_of_plain hs]
  refine ⟨hsize, fun j => ?_, fun j => ?_, fun j => ?_, fun j => ?_⟩
  · rw [children_raise, children_addBelow (hsize ▸ hi), hchildren, hsize]
  · rw [parent_raise, parent_addBelow, hparent, hsize]
  · rw [label_raise, label_addBelow, hsize, ← hname]
    split <;> rfl
  · rw [label_raise, label_addBelow, hsize, ← hicon]
    split <;> rfl

theorem Sprouts.mem_children (hg : Sprouts folder f i s g) (hc : c ∈ f.children j) :
    c ∈ g.children j := by
  rw [hg.children_eq]
  split
  · exact List.mem_append_left _ hc
  · exact hc

/-- Nothing is below the new node. -/
theorem Sprouts.children_new (hg : Sprouts folder f i s g) (hi : i < f.size) :
    g.children f.size = [] := by
  rw [hg.children_eq, if_neg (Nat.ne_of_lt hi), children_of_size_le (Nat.le_refl _)]

/-- An old child has its old name. -/
theorem Sprouts.name_eq_of_mem (hg : Sprouts folder f i s g) (hf : f.Coherent)
    (hc : c ∈ f.children j) : (g.label c).name = (f.label c).name := by
  rw [hg.name_eq, if_neg (Nat.ne_of_lt (hf.child_lt hc))]

theorem Sprouts.distinct (hg : Sprouts folder f i s g) (hf : f.Coherent) (hd : f.Distinct)
    (hnew : ∀ c ∈ f.children i, (f.label c).name ≠ s) : g.Distinct := by
  intro j c hc d hd' hname
  rw [hg.children_eq] at hc hd'
  have hsprout : (g.label f.size).name = s := by rw [hg.name_eq, if_pos rfl]
  split at hc
  · next hij =>
    subst hij
    rw [if_pos rfl] at hd'
    rcases List.mem_append.1 hc with hc | hc
    · rcases List.mem_append.1 hd' with hd' | hd'
      · rw [hg.name_eq_of_mem hf hc, hg.name_eq_of_mem hf hd'] at hname
        exact hd i c hc d hd' hname
      · rw [List.mem_singleton.1 hd', hsprout, hg.name_eq_of_mem hf hc] at hname
        exact absurd hname (hnew c hc)
    · rcases List.mem_append.1 hd' with hd' | hd'
      · rw [List.mem_singleton.1 hc, hsprout, hg.name_eq_of_mem hf hd'] at hname
        exact absurd hname.symm (hnew d hd')
      · rw [List.mem_singleton.1 hc, List.mem_singleton.1 hd']
  · next hij =>
    rw [if_neg hij] at hd'
    rw [hg.name_eq_of_mem hf hc, hg.name_eq_of_mem hf hd'] at hname
    exact hd j c hc d hd' hname

/-- There are the old ways down, and those to the new node. -/
theorem Sprouts.leads_iff (hg : Sprouts folder f i s g) (hf : f.Coherent) (hi : i < f.size)
    {a : NodeId} (ha : a < f.size) : g.Leads a names j ↔
      f.Leads a names j ∨ j = f.size ∧ ∃ above, names = above ++ [s] ∧ f.Leads a above i := by
  induction names generalizing a with
  | nil => simp [Leads]
  | cons x names ih =>
    have hleaf {names : List Text} : g.Leads f.size names j ↔ names = [] ∧ j = f.size := by
      cases names <;> simp [Leads, hg.children_new hi, eq_comm]
    constructor
    · rintro ⟨c, hc, rfl, hleads⟩
      rw [hg.children_eq] at hc
      have hold (hc : c ∈ f.children a) : f.Leads a ((g.label c).name :: names) j ∨
          j = f.size ∧ ∃ above, (g.label c).name :: names = above ++ [s] ∧ f.Leads a above i := by
        rw [hg.name_eq_of_mem hf hc]
        rcases (ih (hf.child_lt hc)).1 hleads with h | ⟨hj, above, rfl, h⟩
        · exact .inl ⟨c, hc, rfl, h⟩
        · exact .inr ⟨hj, (f.label c).name :: above, rfl, c, hc, rfl, h⟩
      split at hc
      · next hia =>
        rcases List.mem_append.1 hc with hc | hc
        · exact hold hc
        · obtain rfl := List.mem_singleton.1 hc
          obtain ⟨rfl, hj⟩ := hleaf.1 hleads
          rw [hg.name_eq, if_pos rfl]
          exact .inr ⟨hj, [], rfl, hia.symm⟩
      · exact hold hc
    · rintro (⟨c, hc, rfl, hleads⟩ | ⟨hj, above, habove, hleads⟩)
      · exact ⟨c, hg.mem_children hc, hg.name_eq_of_mem hf hc, (ih (hf.child_lt hc)).2 (.inl hleads)⟩
      · cases above with
        | nil =>
          obtain rfl : a = i := hleads
          rw [List.nil_append, List.cons.injEq] at habove
          refine ⟨f.size, ?_, ?_, hleaf.2 ⟨habove.2, hj⟩⟩
          · rw [hg.children_eq, if_pos rfl]
            exact List.mem_append_right _ (List.mem_singleton_self _)
          · rw [hg.name_eq, if_pos rfl, habove.1]
        | cons y above =>
          obtain ⟨c, hc, rfl, hleads⟩ := hleads
          rw [List.cons_append, List.cons.injEq] at habove
          obtain ⟨rfl, rfl⟩ := habove
          exact ⟨c, hg.mem_children hc, hg.name_eq_of_mem hf hc,
            (ih (hf.child_lt hc)).2 (.inr ⟨hj, above, rfl, hleads⟩)⟩

/-! ## The plan of the tree -/

/-- The node is a file, or a folder with something in it. -/
def Settled (folder file : Text) (f : Forest) (j : NodeId) : Prop :=
  (f.label j).icon = file ∨ (f.label j).icon = folder ∧ f.children j ≠ []

/-- The paths `done` have been inserted below `r`, and the way down has come to `place`. All nodes
below `r` are settled, but for the place if it was just made. -/
structure Inserted (folder file : Text) (r : NodeId) (f : Forest) (done : List (List Text))
    (place : NodeId) : Prop where
  coherent : f.Coherent
  rising : f.Rising
  distinct : f.Distinct
  root_lt : r < f.size
  parent_root : f.parent r = none
  /-- A node is a file if its path was inserted. -/
  file_iff : ∀ names j, f.Leads r names j → ((f.label j).icon = file ↔ names ∈ done)
  exists_leads : ∀ names ∈ done, ∃ j, f.Leads r names j
  settled : ∀ j, f.Within r j → j ≠ r →
    Settled folder file f j ∨ j = place ∧ (f.label j).icon = [] ∧ f.children j = []

variable {done : List (List Text)} {place : NodeId}

theorem Inserted.lt_of_within (h : Inserted folder file r f done place) (hj : f.Within r j) :
    j < f.size := by
  rcases hj.cases_tail with rfl | ⟨k, -, hk⟩
  · exact h.root_lt
  · exact h.coherent.child_lt hk

/-- The way goes on to a node that is there. -/
theorem Inserted.follow (h : Inserted folder file r f done place) (hc : c ∈ f.children place) :
    Inserted folder file r f done c :=
  { h with
    settled := fun j hj hjr => (h.settled j hj hjr).imp_right fun hnew => by
      rw [hnew.1] at hnew
      rw [hnew.2.2] at hc
      cases hc }

/-- The way goes on to a new node. -/
theorem Inserted.sprout (h : Inserted folder file r f done i) (hg : Sprouts folder f i s g)
    (hcoherent : g.Coherent) (hsize : f.size < g.size) (hfile : file ≠ []) (hfolder : file ≠ folder)
    (hleads : f.Leads r before i) (hnew : ∀ c ∈ f.children i, (f.label c).name ≠ s) :
    Inserted folder file r g done f.size := by
  have hi : i < f.size := h.lt_of_within hleads.within
  have hnewicon : (g.label f.size).icon = [] := by rw [hg.icon_eq, if_pos rfl]
  -- Only a node without an icon has another one now, and neither is that of a file.
  have hicon {j : NodeId} (hj : j < f.size) : (g.label j).icon = file ↔ (f.label j).icon = file := by
    rw [hg.icon_eq, if_neg (Nat.ne_of_lt hj)]
    split
    · next hij =>
      rw [hij.2]
      exact ⟨fun h => absurd h.symm hfolder, fun h => absurd h.symm hfile⟩
    · rfl
  exact {
    coherent := hcoherent
    rising := h.rising.grow hi hg.children_eq
    distinct := hg.distinct h.coherent h.distinct hnew
    root_lt := Nat.lt_trans h.root_lt hsize
    parent_root := by
      rw [hg.parent_eq, if_neg (Nat.ne_of_lt h.root_lt)]
      exact h.parent_root
    file_iff := fun names j hj => by
      rcases (hg.leads_iff h.coherent hi h.root_lt).1 hj with hj | ⟨rfl, above, rfl, habove⟩
      · rw [hicon (h.lt_of_within hj.within)]
        exact h.file_iff names j hj
      · rw [hnewicon]
        refine ⟨fun h => absurd h.symm hfile, fun hdone => ?_⟩
        obtain ⟨k, hk⟩ := h.exists_leads _ hdone
        obtain ⟨i', hi', hki, hks⟩ := leads_concat_iff.1 hk
        rw [h.distinct.eq_of_leads hi' habove] at hki
        exact absurd hks (hnew k hki)
    exists_leads := fun names hnames => by
      obtain ⟨j, hj⟩ := h.exists_leads names hnames
      exact ⟨j, (hg.leads_iff h.coherent hi h.root_lt).2 (.inl hj)⟩
    settled := fun j hj hjr => by
      obtain ⟨names, hnames⟩ := hj.exists_leads
      rcases (hg.leads_iff h.coherent hi h.root_lt).1 hnames with hold | ⟨rfl, -⟩
      · have hlt := h.lt_of_within hold.within
        left
        rcases h.settled j hold.within hjr with (hfile | ⟨hfold, hchildren⟩) | ⟨rfl, hnone, -⟩
        · exact .inl ((hicon hlt).2 hfile)
        · right
          obtain ⟨c, hc⟩ := List.exists_mem_of_ne_nil _ hchildren
          refine ⟨?_, List.ne_nil_of_mem (hg.mem_children hc)⟩
          rw [hg.icon_eq, if_neg (Nat.ne_of_lt hlt), hfold, ite_self]
        · right
          rw [hg.icon_eq, if_neg (Nat.ne_of_lt hlt), if_pos ⟨rfl, hnone⟩, hg.children_eq,
            if_pos rfl]
          exact ⟨rfl, List.append_ne_nil_of_right_ne_nil _ (List.cons_ne_nil _ _)⟩
      · exact .inr ⟨rfl, hnewicon, hg.children_new hi⟩ }

theorem Inserted.openSegment (h : Inserted folder file r f done i) (hfile : file ≠ [])
    (hfolder : file ≠ folder) (hleads : f.Leads r before i) (hs : Markup.Plain s) :
    Inserted folder file r (openSegment folder i f s).2 done (openSegment folder i f s).1 ∧
      (openSegment folder i f s).2.Leads r (before ++ [s]) (openSegment folder i f s).1 := by
  have hi : i < f.size := h.lt_of_within hleads.within
  cases hfound : f.childNamed? i s with
  | some c =>
    have hc : c ∈ f.children i := List.mem_of_find?_eq_some hfound
    have hname : (f.label c).name = s := by simpa using List.find?_some hfound
    rw [Forest.openSegment_eq, hfound]
    exact ⟨h.follow hc, leads_concat_iff.2 ⟨i, hleads, hc, hname⟩⟩
  | none =>
    have hnew : ∀ c ∈ f.children i, (f.label c).name ≠ s := fun c hc hname =>
      List.find?_eq_none.1 hfound c hc (decide_eq_true hname)
    obtain ⟨hfst, hg⟩ := sprouts_openSegment folder hi hs hfound
    have hgrows := growsTo_openSegment h.coherent hi folder s
    rw [hfst]
    refine ⟨h.sprout hg (hgrows.coherent h.coherent) (hfst ▸ hgrows.lt) hfile hfolder hleads hnew, ?_⟩
    exact (hg.leads_iff h.coherent hi h.root_lt).2 (.inr ⟨rfl, before, rfl, hleads⟩)

theorem Inserted.openSegments (h : Inserted folder file r f done i) (hfile : file ≠ [])
    (hfolder : file ≠ folder) (hleads : f.Leads r before i) (hs : ∀ s ∈ names, Markup.Plain s) :
    Inserted folder file r (openSegments folder i f names).2 done
        (openSegments folder i f names).1 ∧
      (openSegments folder i f names).2.Leads r (before ++ names)
        (openSegments folder i f names).1 := by
  induction names generalizing f i before with
  | nil => exact ⟨h, by rwa [List.append_nil]⟩
  | cons s names ih =>
    obtain ⟨hopen, hnext⟩ := h.openSegment hfile hfolder hleads (hs s List.mem_cons_self)
    have hrest := ih hopen hnext fun x hx => hs x (List.mem_cons_of_mem s hx)
    rwa [List.append_assoc] at hrest

/-- The node of a path becomes a file, and the next path starts at the root. -/
theorem Inserted.fileNode (h : Inserted folder file r f done r) (hfile : file ≠ [])
    (hfolder : file ≠ folder) {path : Text} (hs : ∀ s ∈ segments path, Markup.Plain s) :
    Inserted folder file r (f.fileNode r path folder file).2 (done ++ [segments path]) r := by
  have hstart : f.Leads r [] r := rfl
  obtain ⟨hopened, hleads⟩ := h.openSegments hfile hfolder hstart hs
  rw [List.nil_append] at hleads
  rw [Forest.fileNode_eq]
  generalize Forest.openSegments folder r f (segments path) = p at *
  obtain ⟨j, g⟩ := p
  dsimp only at *
  have hj : j < g.size := hopened.lt_of_within hleads.within
  have hicon (k : NodeId) : ((g.setIcon j file).label k).icon =
      if j = k then file else (g.label k).icon := by
    rw [label_setIcon]
    simp only [hj, and_true]
    split <;> rfl
  have hname (k : NodeId) : ((g.setIcon j file).label k).name = (g.label k).name := by
    rw [label_setIcon]
    split <;> rfl
  have hchildren (k : NodeId) : (g.setIcon j file).children k = g.children k := children_modifyLabel
  have hiff {names : List Text} {k : NodeId} :
      (g.setIcon j file).Leads r names k ↔ g.Leads r names k := leads_congr hchildren hname
  exact {
    coherent := hopened.coherent.modifyLabel _
    rising := hopened.rising.mono fun k c hc => hchildren k ▸ hc
    distinct := fun k c hc d hd hcd => by
      rw [hchildren] at hc hd
      rw [hname, hname] at hcd
      exact hopened.distinct k c hc d hd hcd
    root_lt := by
      rw [setIcon, size_modifyLabel]
      exact hopened.root_lt
    parent_root := parent_modifyLabel.trans hopened.parent_root
    file_iff := fun names k hk => by
      rw [hiff] at hk
      rw [hicon, List.mem_append, List.mem_singleton]
      by_cases hjk : j = k
      · subst hjk
        rw [if_pos rfl]
        exact iff_of_true rfl (.inr (hopened.coherent.names_eq_of_leads hopened.parent_root hk hleads))
      · rw [if_neg hjk, hopened.file_iff names k hk, or_iff_left]
        rintro rfl
        exact hjk (hopened.distinct.eq_of_leads hleads hk)
    exists_leads := fun names hnames => by
      simp only [hiff]
      rcases List.mem_append.1 hnames with hnames | hnames
      · exact hopened.exists_leads names hnames
      · exact ⟨j, List.mem_singleton.1 hnames ▸ hleads⟩
    settled := fun k hk hkr => by
      obtain ⟨names, hnames⟩ := hk.exists_leads
      rw [hiff] at hnames
      left
      rw [Settled, hicon, hchildren]
      by_cases hjk : j = k
      · exact .inl (if_pos hjk)
      · rw [if_neg hjk]
        exact (hopened.settled k hnames.within hkr).resolve_right fun hnew => hjk hnew.1.symm }

/-- A root without anything below it. -/
theorem inserted_addRoot (folder name : Text) (hfile : file ≠ []) :
    Inserted folder file 0 (empty.addRoot name).2 [] 0 := by
  have hicon : ((empty.addRoot name).2.label 0).icon = [] := rfl
  have hbelow {j c : NodeId} : c ∉ (empty.addRoot name).2.children j := by
    rw [children_addRoot, children_of_size_le (Nat.zero_le _)]
    exact List.not_mem_nil
  have hroot {names : List Text} {j : NodeId} (h : (empty.addRoot name).2.Leads 0 names j) :
      j = 0 := by
    cases names with
    | nil => exact h.symm
    | cons s names =>
      obtain ⟨c, hc, -⟩ := h
      exact absurd hc hbelow
  exact {
    coherent := coherent_empty.addRoot name
    rising := fun j c hc => absurd hc hbelow
    distinct := fun j c hc => absurd hc hbelow
    root_lt := by
      rw [size_addRoot]
      exact Nat.succ_pos _
    parent_root := rfl
    file_iff := fun names j hj => by
      rw [hroot hj, hicon]
      exact iff_of_false (Ne.symm hfile) List.not_mem_nil
    exists_leads := fun names h => absurd h List.not_mem_nil
    settled := fun j hj hne => by
      obtain ⟨names, hnames⟩ := hj.exists_leads
      exact absurd (hroot hnames) hne }

end Forest

end ReportTree
