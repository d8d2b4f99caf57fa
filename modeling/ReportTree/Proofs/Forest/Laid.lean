import ReportTree.Proofs.Forest.Insertion
import ReportTree.Proofs.Forest.Raise
import ReportTree.Proofs.Forest.Folded

/-!
# The tree of a set of paths

Where no path goes on below the end of another one, inserting plain paths gives a tree that is
determined by the set of paths: names lead to a node if they are the beginning of a path, and what
they lead to shows its last name, as a file at the end of a path and as a folder before. This holds
for any two icons, also for empty and for equal ones.

* `Laid.openSegments`: going down a path.
* `Laid.fileNode`, `Laid.fileNodes`: inserting paths.
* `Laid.shows_iff`: what names lead to in the end.
-/

namespace ReportTree.Forest

variable {f : Forest} {i j r c : NodeId} {folder file tab s : Text} {names place : List Text}
  {done : List (List Text)}

/-! ## Labels -/

/-- A new node shows nothing but its name, and no other label changes but the icon of a folder. -/
theorem label_openSegment (folder : Text) (j : NodeId) (hi : i < f.size) (hs : Markup.Plain s)
    (hnone : f.childNamed? i s = none) :
    (openSegment folder i f s).2.label j =
      if j = f.size then { name := s }
      else if i = j ∧ (f.label j).icon = [] then { f.label j with icon := folder }
      else f.label j := by
  obtain ⟨f', hf'⟩ :
      ∃ f', (if (f.label i).icon.isEmpty then f.setIcon i folder else f) = f' := ⟨_, rfl⟩
  have hsize : f'.size = f.size := (markFolder_spec hi hf').1
  have hlabel : f'.label j =
      if i = j ∧ (f.label j).icon = [] then { f.label j with icon := folder } else f.label j := by
    rw [← hf']
    split
    · next hicon =>
      rw [label_setIcon]
      by_cases hij : i = j
      · rw [if_pos ⟨hij, hi⟩, if_pos ⟨hij, hij ▸ List.isEmpty_iff.1 hicon⟩]
      · rw [if_neg fun h => hij h.1, if_neg fun h => hij h.1]
    · next hicon =>
      rw [if_neg]
      rintro ⟨rfl, h⟩
      exact hicon (List.isEmpty_iff.2 h)
  rw [openSegment_eq, hnone]
  dsimp only
  rw [hf', addChild_of_plain hs, label_raise_none, label_addBelow, hsize, hlabel]
  · rw [size_addBelow]
    exact Nat.lt_succ_self _
  · rw [level_addBelow, if_pos rfl]

/-! ## The plan of the tree -/

/-- The names are the beginning of one of the paths, which goes on after them. -/
def Above (paths : List (List Text)) (names : List Text) : Prop :=
  ∃ p ∈ paths, names <+: p ∧ names ≠ p

instance (paths : List (List Text)) (names : List Text) : Decidable (Above paths names) :=
  inferInstanceAs (Decidable (∃ p ∈ paths, names <+: p ∧ names ≠ p))

/-- Names after which a path goes on. -/
theorem above_of_concat {paths : List (List Text)} {p : List Text} (hp : p ∈ paths)
    (h : names ++ [s] <+: p) : Above paths names := by
  refine ⟨p, hp, (List.prefix_append names [s]).trans h, ?_⟩
  rintro rfl
  have hle := h.length_le
  rw [List.length_append, List.length_singleton] at hle
  omega

/-- What the node shows that names lead to, where the paths `done` have been inserted and the way
down the next one has come to `place`. -/
def laidLabel (folder file tab : Text) (done : List (List Text)) (place names : List Text) :
    Label where
  name := names.getLast?.getD tab
  icon := if names ∈ done then file else if Above (place :: done) names then folder else []

/-- The paths `done` have been inserted below `r`, and the way down the next one has come to
`place`. -/
structure Laid (folder file tab : Text) (r : NodeId) (f : Forest) (done : List (List Text))
    (place : List Text) : Prop where
  coherent : f.Coherent
  rising : f.Rising
  distinct : f.Distinct
  root_lt : r < f.size
  parent_root : f.parent r = none
  /-- The beginnings of paths lead somewhere. -/
  leads_iff : ∀ names, (∃ j, f.Leads r names j) ↔ ∃ p ∈ place :: done, names <+: p
  label_eq : ∀ names j, f.Leads r names j → f.label j = laidLabel folder file tab done place names

/-- One more name, and the place before it is above another one. -/
theorem above_concat_iff :
    Above ((place ++ [s]) :: done) names ↔ names = place ∨ Above (place :: done) names := by
  have hne (h : names <+: place) : names ≠ place ++ [s] := by
    rintro rfl
    exact absurd h.length_le (by simp)
  simp only [Above, List.mem_cons, exists_eq_or_imp, List.prefix_concat_iff]
  constructor
  · rintro (⟨h | h, hne'⟩ | h)
    · exact absurd h hne'
    · by_cases hplace : names = place
      · exact .inl hplace
      · exact .inr (.inl ⟨h, hplace⟩)
    · exact .inr (.inr h)
  · rintro (rfl | ⟨h, -⟩ | h)
    · exact .inl ⟨.inr List.prefix_rfl, hne List.prefix_rfl⟩
    · exact .inl ⟨.inr h, hne h⟩
    · exact .inr h

/-- One more name, and it leads somewhere. -/
theorem prefix_concat_cons_iff :
    (∃ p ∈ (place ++ [s]) :: done, names <+: p) ↔
      names = place ++ [s] ∨ ∃ p ∈ place :: done, names <+: p := by
  simp only [List.mem_cons, exists_eq_or_imp, List.prefix_concat_iff, or_assoc]

/-- One more name changes nothing but what the place before it shows. -/
theorem laidLabel_concat (hne : names ≠ place) :
    laidLabel folder file tab done (place ++ [s]) names =
      laidLabel folder file tab done place names := by
  rw [laidLabel, laidLabel]
  congr 3
  rw [above_concat_iff, or_iff_right hne]

/-- A place becomes a folder when it comes to be above another one, if it was none before. -/
theorem laidLabel_concat_place (hplace : place ∉ done) :
    laidLabel folder file tab done (place ++ [s]) place =
      if (laidLabel folder file tab done place place).icon = [] then
        { laidLabel folder file tab done place place with icon := folder }
      else laidLabel folder file tab done place place := by
  simp only [laidLabel, if_neg hplace, if_pos (above_concat_iff.2 (.inl rfl))]
  by_cases habove : Above (place :: done) place
  · simp [habove]
  · simp [habove]

/-- A name that led nowhere shows itself only. -/
theorem laidLabel_concat_self (hnowhere : ¬∃ p ∈ place :: done, place ++ [s] <+: p) :
    laidLabel folder file tab done (place ++ [s]) (place ++ [s]) = { name := s } := by
  have hdone : place ++ [s] ∉ done := fun hmem =>
    hnowhere ⟨_, List.mem_cons_of_mem _ hmem, List.prefix_rfl⟩
  have habove : ¬Above ((place ++ [s]) :: done) (place ++ [s]) := by
    rw [above_concat_iff, not_or]
    refine ⟨by simp, ?_⟩
    rintro ⟨p, hp, hprefix, -⟩
    exact hnowhere ⟨p, hp, hprefix⟩
  rw [laidLabel, if_neg hdone, if_neg habove, List.getLast?_concat, Option.getD_some]

section Laid

variable (h : Laid folder file tab r f done place)
include h

theorem Laid.lt_of_leads (hj : f.Leads r names j) : j < f.size := by
  rcases hj.within.cases_tail with rfl | ⟨k, -, hk⟩
  · exact h.root_lt
  · exact h.coherent.child_lt hk

/-- The way goes on to a node that is there. -/
theorem Laid.follow (hc : f.Leads r (place ++ [s]) c) :
    Laid folder file tab r f done (place ++ [s]) := by
  obtain ⟨p, hp, hprefix⟩ := (h.leads_iff _).1 ⟨c, hc⟩
  have habove : Above (place :: done) place := above_of_concat hp hprefix
  exact {
    coherent := h.coherent
    rising := h.rising
    distinct := h.distinct
    root_lt := h.root_lt
    parent_root := h.parent_root
    leads_iff := fun names => by
      rw [h.leads_iff, prefix_concat_cons_iff, or_iff_right_of_imp]
      rintro rfl
      exact ⟨p, hp, hprefix⟩
    label_eq := fun names j hj => by
      rw [h.label_eq names j hj, laidLabel, laidLabel]
      congr 3
      rw [above_concat_iff, or_iff_right_of_imp]
      rintro rfl
      exact habove }

/-- The way goes on to a new node. -/
theorem Laid.sprout (hi : f.Leads r place i) (hs : Markup.Plain s)
    (hnone : f.childNamed? i s = none) (hplace : place ∉ done) :
    Laid folder file tab r (openSegment folder i f s).2 done (place ++ [s]) ∧
      (openSegment folder i f s).2.Leads r (place ++ [s]) (openSegment folder i f s).1 := by
  have hlt : i < f.size := h.lt_of_leads hi
  have hnew : ∀ c ∈ f.children i, (f.label c).name ≠ s := fun c hc hname =>
    List.find?_eq_none.1 hnone c hc (decide_eq_true hname)
  obtain ⟨hfst, hg⟩ := sprouts_openSegment folder hlt hs hnone
  have hgrows := growsTo_openSegment h.coherent hlt folder s
  have hlabel (j : NodeId) := label_openSegment folder j hlt hs hnone
  -- The old names lead where they did, and those of the new node lead nowhere before.
  have hleads (names : List Text) (j : NodeId) :
      (openSegment folder i f s).2.Leads r names j ↔
        f.Leads r names j ∨ j = f.size ∧ names = place ++ [s] := by
    rw [hg.leads_iff h.coherent hlt h.root_lt]
    refine or_congr_right (and_congr_right fun _ => ⟨?_, ?_⟩)
    · rintro ⟨above, rfl, habove⟩
      rw [h.coherent.names_eq_of_leads h.parent_root habove hi]
    · rintro rfl
      exact ⟨place, rfl, hi⟩
  have hnowhere : ¬∃ p ∈ place :: done, place ++ [s] <+: p := by
    rw [← h.leads_iff]
    rintro ⟨c, hc⟩
    obtain ⟨k, hk, hck, hcs⟩ := leads_concat_iff.1 hc
    rw [h.distinct.eq_of_leads hk hi] at hck
    exact hnew c hck hcs
  have hself : (openSegment folder i f s).2.Leads r (place ++ [s]) f.size :=
    (hleads _ _).2 (.inr ⟨rfl, rfl⟩)
  rw [hfst]
  refine ⟨?_, hself⟩
  exact {
    coherent := hgrows.coherent h.coherent
    rising := h.rising.grow hlt hg.children_eq
    distinct := hg.distinct h.coherent h.distinct hnew
    root_lt := Nat.lt_of_lt_of_le h.root_lt hgrows.growth.size_le
    parent_root := by
      rw [hg.parent_eq, if_neg (Nat.ne_of_lt h.root_lt)]
      exact h.parent_root
    leads_iff := fun names => by
      simp only [hleads, exists_or, exists_eq_left]
      rw [h.leads_iff, prefix_concat_cons_iff, or_comm]
    label_eq := fun names j hj => by
      rw [hlabel]
      rcases (hleads names j).1 hj with hj | ⟨rfl, rfl⟩
      · rw [if_neg (Nat.ne_of_lt (h.lt_of_leads hj)), h.label_eq names j hj]
        by_cases hij : i = j
        · subst hij
          obtain rfl := h.coherent.names_eq_of_leads h.parent_root hj hi
          rw [laidLabel_concat_place hplace]
          simp only [true_and]
        · rw [if_neg fun hand => hij hand.1, laidLabel_concat]
          exact fun hnames => hij (h.distinct.eq_of_leads hi (hnames ▸ hj))
      · rw [if_pos rfl, laidLabel_concat_self hnowhere] }

/-- Going down one name, to a node that is there or to a new one. -/
theorem Laid.openSegment (hi : f.Leads r place i) (hs : Markup.Plain s) (hplace : place ∉ done) :
    Laid folder file tab r (openSegment folder i f s).2 done (place ++ [s]) ∧
      (openSegment folder i f s).2.Leads r (place ++ [s]) (openSegment folder i f s).1 := by
  cases hfound : f.childNamed? i s with
  | some c =>
    have hc : c ∈ f.children i := List.mem_of_find?_eq_some hfound
    have hname : (f.label c).name = s := by simpa using List.find?_some hfound
    have hleads : f.Leads r (place ++ [s]) c := leads_concat_iff.2 ⟨i, hi, hc, hname⟩
    rw [Forest.openSegment_eq, hfound]
    exact ⟨h.follow hleads, hleads⟩
  | none => exact h.sprout hi hs hfound hplace

end Laid

/-- Going down a path, where no path that was inserted ends on the way. -/
theorem Laid.openSegments (h : Laid folder file tab r f done place) (hi : f.Leads r place i)
    (hs : ∀ s ∈ names, Markup.Plain s)
    (hfree : ∀ p ∈ done, p <+: place ++ names → p = place ++ names) :
    Laid folder file tab r (openSegments folder i f names).2 done (place ++ names) ∧
      (openSegments folder i f names).2.Leads r (place ++ names)
        (openSegments folder i f names).1 := by
  induction names generalizing f i place with
  | nil =>
    rw [List.append_nil]
    exact ⟨h, hi⟩
  | cons s names ih =>
    have hplace : place ∉ done := by
      intro hmem
      have heq := hfree place hmem (List.prefix_append _ _)
      exact List.cons_ne_nil s names (List.self_eq_append_right.1 heq)
    obtain ⟨hopened, hleads⟩ := h.openSegment hi (hs s List.mem_cons_self) hplace
    have hnext : place ++ s :: names = place ++ [s] ++ names := by simp
    rw [hnext] at hfree ⊢
    exact ih hopened hleads (fun x hx => hs x (List.mem_cons_of_mem s hx)) hfree

/-- The end of a path becomes a file, and the next path starts at the root. -/
theorem Laid.finish (h : Laid folder file tab r f done place) (hj : f.Leads r place j) :
    Laid folder file tab r (f.setIcon j file) (done ++ [place]) [] := by
  have hlt : j < f.size := h.lt_of_leads hj
  have hchildren (k : NodeId) : (f.setIcon j file).children k = f.children k := children_modifyLabel
  have hname (k : NodeId) : ((f.setIcon j file).label k).name = (f.label k).name := by
    rw [label_setIcon]
    split <;> rfl
  have hiff {names : List Text} {k : NodeId} :
      (f.setIcon j file).Leads r names k ↔ f.Leads r names k := leads_congr hchildren hname
  have habove (names : List Text) :
      Above ([] :: (done ++ [place])) names ↔ Above (place :: done) names := by
    simp [Above, or_comm, or_and_right, exists_or]
  exact {
    coherent := h.coherent.modifyLabel _
    rising := h.rising.mono fun k c hc => hchildren k ▸ hc
    distinct := fun k c hc d hd hcd => by
      rw [hchildren] at hc hd
      rw [hname, hname] at hcd
      exact h.distinct k c hc d hd hcd
    root_lt := by
      rw [setIcon, size_modifyLabel]
      exact h.root_lt
    parent_root := parent_modifyLabel.trans h.parent_root
    leads_iff := fun names => by
      simp only [hiff]
      rw [h.leads_iff]
      constructor
      · rintro ⟨p, hp, hprefix⟩
        refine ⟨p, List.mem_cons_of_mem [] ?_, hprefix⟩
        rcases List.mem_cons.1 hp with rfl | hp
        · exact List.mem_append_right _ (List.mem_singleton_self _)
        · exact List.mem_append_left _ hp
      · rintro ⟨p, hp, hprefix⟩
        rcases List.mem_cons.1 hp with rfl | hp
        · exact ⟨place, List.mem_cons_self, List.prefix_nil.1 hprefix ▸ List.nil_prefix⟩
        · rcases List.mem_append.1 hp with hp | hp
          · exact ⟨p, List.mem_cons_of_mem place hp, hprefix⟩
          · exact ⟨place, List.mem_cons_self, List.mem_singleton.1 hp ▸ hprefix⟩
    label_eq := fun names k hk => by
      rw [hiff] at hk
      rw [label_setIcon, h.label_eq names k hk, laidLabel, laidLabel]
      by_cases hjk : j = k
      · subst hjk
        obtain rfl := h.coherent.names_eq_of_leads h.parent_root hk hj
        rw [if_pos ⟨rfl, hlt⟩, if_pos (List.mem_append_right _ (List.mem_singleton_self _))]
      · have hne : names ≠ place := fun hnames =>
          hjk (h.distinct.eq_of_leads hj (hnames ▸ hk))
        rw [if_neg fun hand => hjk hand.1]
        simp only [List.mem_append, List.mem_singleton, hne, or_false, habove] }

/-- The node of a path becomes a file. -/
theorem Laid.fileNode (h : Laid folder file tab r f done []) {path : Text}
    (hs : ∀ s ∈ segments path, Markup.Plain s)
    (hfree : ∀ p ∈ done, p <+: segments path → p = segments path) :
    Laid folder file tab r (f.fileNode r path folder file).2 (done ++ [segments path]) [] := by
  have hstart : f.Leads r [] r := rfl
  obtain ⟨hopened, hleads⟩ := h.openSegments hstart hs hfree
  exact hopened.finish hleads

/-- Paths are inserted one after the other. -/
theorem Laid.fileNodes (h : Laid folder file tab r f done []) {paths : List Text}
    (hs : ∀ path ∈ paths, ∀ s ∈ segments path, Markup.Plain s)
    (hfree : ∀ p ∈ done ++ paths.map segments, ∀ q ∈ done ++ paths.map segments, p <+: q → p = q) :
    Laid folder file tab r (paths.foldl (fun f path => (f.fileNode r path folder file).2) f)
      (done ++ paths.map segments) [] := by
  induction paths generalizing f done with
  | nil => rwa [List.map_nil, List.append_nil]
  | cons path paths ih =>
    have hfirst := h.fileNode (hs path List.mem_cons_self) fun p hp =>
      hfree p (List.mem_append_left _ hp) _ (List.mem_append_right _ List.mem_cons_self)
    have hnext : done ++ (path :: paths).map segments =
        done ++ [segments path] ++ paths.map segments := by simp
    rw [hnext] at hfree ⊢
    exact ih hfirst (fun p hp => hs p (List.mem_cons_of_mem path hp)) hfree

/-- A root without anything below it. -/
theorem laid_addRoot (folder file tab : Text) :
    Laid folder file tab 0 (empty.addRoot tab).2 [] [] := by
  have hbelow {j c : NodeId} : c ∉ (empty.addRoot tab).2.children j := by
    rw [children_addRoot, children_of_size_le (Nat.zero_le _)]
    exact List.not_mem_nil
  have hleads {names : List Text} {j : NodeId} :
      (empty.addRoot tab).2.Leads 0 names j ↔ names = [] ∧ j = 0 := by
    cases names with
    | nil => simp [Leads, eq_comm]
    | cons s names =>
      refine iff_of_false ?_ fun h => List.cons_ne_nil s names h.1
      rintro ⟨c, hc, -⟩
      exact hbelow hc
  exact {
    coherent := coherent_empty.addRoot tab
    rising := fun j c hc => absurd hc hbelow
    distinct := fun j c hc => absurd hc hbelow
    root_lt := by
      rw [size_addRoot]
      exact Nat.succ_pos _
    parent_root := rfl
    leads_iff := fun names => by simp [hleads]
    label_eq := fun names j hj => by
      obtain ⟨rfl, rfl⟩ := hleads.1 hj
      rw [laidLabel, if_neg List.not_mem_nil, if_neg (by simp [Above])]
      rfl }

/-! ## What is seen in the end -/

/-- The names lead from the node to one that shows the label. -/
def Shows (f : Forest) (i : NodeId) (names : List Text) (x : Label) : Prop :=
  ∃ j, f.Leads i names j ∧ f.label j = x

section Laid

variable (h : Laid folder file tab r f done [])
include h

/-- The set of paths determines what names lead to. -/
theorem Laid.shows_iff {x : Label} : f.Shows r names x ↔
    (∃ p ∈ [] :: done, names <+: p) ∧ laidLabel folder file tab done [] names = x := by
  rw [← h.leads_iff]
  constructor
  · rintro ⟨j, hj, rfl⟩
    exact ⟨⟨j, hj⟩, (h.label_eq names j hj).symm⟩
  · rintro ⟨⟨j, hj⟩, rfl⟩
    exact ⟨j, hj, h.label_eq names j hj⟩

/-- What has something below it is a folder, where no path goes on after another one. -/
theorem Laid.icon_eq (hfree : ∀ p ∈ done, ∀ q ∈ done, p <+: q → p = q) (hj : f.Within r j)
    (hchildren : f.children j ≠ []) : (f.label j).icon = folder := by
  obtain ⟨names, hnames⟩ := hj.exists_leads
  obtain ⟨c, hc⟩ := List.exists_mem_of_ne_nil _ hchildren
  obtain ⟨p, hp, hprefix⟩ := (h.leads_iff _).1 ⟨c, leads_concat_iff.2 ⟨j, hnames, hc, rfl⟩⟩
  have habove : Above ([] :: done) names := above_of_concat hp hprefix
  have hnot : names ∉ done := by
    intro hdone
    obtain ⟨q, hq, hbegin, hne⟩ := habove
    rcases List.mem_cons.1 hq with rfl | hq
    · exact hne (List.prefix_nil.1 hbegin)
    · exact hne (hfree names hdone q hq hbegin)
  rw [h.label_eq names j hnames, laidLabel, if_neg hnot, if_pos habove]

end Laid

end ReportTree.Forest
