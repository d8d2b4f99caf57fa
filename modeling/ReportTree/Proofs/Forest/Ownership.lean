import ReportTree.Proofs.Forest.Demanded

/-!
# Who lists a node

The parent of a node and the lists of children are kept apart. In a run in which no node is moved
below itself they agree, but for nodes that were absorbed: those still name the parent that absorbed
them, and nobody lists them. Such a node cannot be moved any more. Any other one can, and nothing
changes then but its parent and the two lists.

* `Owned.addBelow`, `Owned.absorbOnlyChild`, `Owned.move`: steps that keep it so.
* `move_eq_error_iff`, `moved_of_move_eq_ok`: what moving a node does.
* `Logged.ownership`: the links after a run.
-/

namespace ReportTree.Forest

/-- The node names a parent that does not list it. -/
def Unlisted (f : Forest) (i : NodeId) : Prop := ∃ p, f.parent i = some p ∧ i ∉ f.children p

/-- No node is on its own way up. -/
def Acyclic (f : Forest) : Prop := ∀ i, ¬f.Ascends i i

/-- The links of a forest agree, but for the nodes `cs`. -/
structure Owned (f : Forest) (cs : List NodeId) : Prop where
  coherent : f.Coherent
  acyclic : f.Acyclic
  unlisted_iff : ∀ i, f.Unlisted i ↔ i ∈ cs

variable {f g : Forest} {cs ds : List NodeId} {i j c p target : NodeId} {folder : Text}

/-! ## Ways up -/

/-- Where every parent was on the way up before, the ways up are not new. -/
theorem Ascends.of_parent (h : g.Ascends i j)
    (hparent : ∀ a b, g.parent a = some b → f.Ascends a b) : f.Ascends i j := by
  induction h with
  | single hj => exact hparent _ _ hj
  | tail _ hj ih => exact ih.trans (hparent _ _ hj)

theorem Acyclic.of_parent (hf : f.Acyclic)
    (hparent : ∀ a b, g.parent a = some b → f.Ascends a b) : g.Acyclic :=
  fun i hi => hf i (hi.of_parent hparent)

/-- What a way up leads to is there. -/
theorem Coherent.lt_of_ascends (hf : f.Coherent) (h : f.Ascends i j) : j < f.size := by
  obtain ⟨a, -, ha⟩ := Relation.TransGen.tail'_iff.1 h
  exact hf.parent_lt ha

/-- A new node is on no way up: nobody names it. -/
theorem Acyclic.addBelow (hf : f.Acyclic) (hc : f.Coherent) (hi : i < f.size) {x : Label} :
    (f.addBelow i x).2.Acyclic := by
  have hold {a b : NodeId} (h : (f.addBelow i x).2.Ascends a b) (ha : a ≠ f.size) :
      f.Ascends a b := by
    induction h with
    | single hb =>
      rw [parent_addBelow, if_neg ha] at hb
      exact .single hb
    | tail _ hd ih =>
      rw [parent_addBelow, if_neg (Nat.ne_of_lt (hc.lt_of_ascends ih))] at hd
      exact ih.tail hd
  intro j hj
  by_cases hnew : j = f.size
  · -- The last step up comes from a node that was there, or from the new one to `i`.
    obtain ⟨a, -, ha⟩ := Relation.TransGen.tail'_iff.1 hj
    rw [parent_addBelow, hnew] at ha
    split at ha
    · cases ha
      exact Nat.lt_irrefl _ hi
    · exact Nat.lt_irrefl _ (hc.parent_lt ha)
  · exact hf j (hold hj hnew)

/-- With one more link up, a way is an old one, or it leads over the new link. -/
theorem Ascends.of_setParent {h : Forest}
    (hparent : ∀ j, h.parent j = if j = i then some target else f.parent j) {a b : NodeId}
    (hab : h.Ascends a b) :
    f.Ascends a b ∨ (a = i ∨ f.Ascends a i) ∧ (target = b ∨ f.Ascends target b) := by
  induction hab with
  | @single b hb =>
    rw [hparent] at hb
    split at hb
    · next ha =>
      cases hb
      exact .inr ⟨.inl ha, .inl rfl⟩
    · exact .inl (.single hb)
  | @tail b d _ hd ih =>
    rw [hparent] at hd
    split at hd
    · next hb =>
      cases hd
      subst hb
      refine .inr ⟨?_, .inl rfl⟩
      rcases ih with h | h
      · exact .inr h
      · exact h.1
    · rcases ih with h | ⟨ha, rfl | htarget⟩
      · exact .inl (h.tail hd)
      · exact .inr ⟨ha, .inr (.single hd)⟩
      · exact .inr ⟨ha, .inr (htarget.tail hd)⟩

/-- The children of an only child name the node above it then, which was on their way up before. -/
theorem Acyclic.absorbOnlyChild (hf : f.Acyclic) (hc : f.Coherent) {sep : Text} :
    (f.absorbOnlyChild i sep).Acyclic := by
  rcases f.absorbOnlyChild_cases i sep with hsame | ⟨c, hchild⟩
  · rwa [hsame]
  · obtain ⟨-, -, -, hparent⟩ := absorbOnlyChild_spec sep hchild rfl
    have hci : f.parent c = some i := hc.parent_eq (hchild ▸ List.mem_singleton_self c)
    refine hf.of_parent fun a b hb => ?_
    rw [hparent] at hb
    split at hb
    · next ha =>
      cases hb
      exact .tail (.single (hc.parent_eq ha.1)) hci
    · exact .single hb

/-! ## Growing and folding -/

theorem Owned.congr (h : f.Owned cs) (hc : g.Coherent) (hparent : ∀ j, g.parent j = f.parent j)
    (hchildren : ∀ j c, c ∈ g.children j ↔ c ∈ f.children j) : g.Owned cs where
  coherent := hc
  acyclic := h.acyclic.of_parent fun a b hb => .single ((hparent a).symm.trans hb)
  unlisted_iff i := by
    simp only [Unlisted, hparent, hchildren]
    exact h.unlisted_iff i

/-- A new node is listed by its parent. -/
theorem Owned.addBelow (h : f.Owned cs) (hi : i < f.size) {x : Label} :
    (f.addBelow i x).2.Owned cs where
  coherent := h.coherent.addBelow hi
  acyclic := h.acyclic.addBelow h.coherent hi
  unlisted_iff j := by
    rw [← h.unlisted_iff, Unlisted, Unlisted, parent_addBelow]
    by_cases hj : j = f.size
    · have hnone : f.parent f.size = none := parent_of_size_le (Nat.le_refl _)
      simp [hj, hnone, children_addBelow hi]
    · simp only [if_neg hj, children_addBelow hi]
      refine exists_congr fun p => and_congr_right fun _ => not_congr ?_
      split
      · simp [hj]
      · rfl

theorem Growth.owned {demands : List Demand} (hg : Growth f demands g) (h : f.Owned cs) :
    g.Owned cs := by
  induction hg with
  | refl => exact h
  | relabel _ _ _ ih =>
    exact ih.congr (ih.coherent.modifyLabel _) (fun _ => parent_modifyLabel) fun j c => by
      rw [children_modifyLabel]
  | grow _ hi _ ih => exact ih.addBelow hi
  | raise _ _ _ ih =>
    exact ih.congr (ih.coherent.raise _) (fun _ => parent_raise) fun j c => by rw [children_raise]
  | keep _ _ ih => exact ih

/-- An only child that is absorbed is listed nowhere then. Its own children are listed by the node
that absorbed it. -/
theorem Owned.absorbOnlyChild (h : f.Owned cs) (hc : f.children i = [c]) (sep : Text) :
    (f.absorbOnlyChild i sep).Owned (cs ++ [c]) := by
  obtain ⟨-, -, hchildren, hparent⟩ := absorbOnlyChild_spec sep hc rfl
  have hci : f.parent c = some i := h.coherent.parent_eq (hc ▸ List.mem_singleton_self c)
  have hcc : c ∉ f.children c := fun hcc => h.acyclic c (.single (h.coherent.parent_eq hcc))
  have hne : i ≠ c := by
    rintro rfl
    exact h.acyclic i (.single hci)
  refine ⟨h.coherent.absorbOnlyChild, h.acyclic.absorbOnlyChild h.coherent, fun j => ?_⟩
  rw [List.mem_append, List.mem_singleton, ← h.unlisted_iff, Unlisted, Unlisted]
  simp only [hparent, hchildren]
  by_cases hj : j ∈ f.children c
  · -- The node is listed before, by the child, and afterwards by `i`.
    have hjc : f.parent j = some c := h.coherent.parent_eq hj
    have hne' : j ≠ c := fun hj' => hcc (hj' ▸ hj)
    simp [hj, hjc, hne', h.coherent.child_lt hj]
  · by_cases hjc : j = c
    · subst hjc
      simp [hj, hci]
    · simp only [hj, hjc, false_and, if_false, or_false]
      refine exists_congr fun p => and_congr_right fun hp => ?_
      by_cases hip : i = p
      · subst hip
        simp [hj, hc, hjc]
      · by_cases hcp : c = p
        · subst hcp
          simp [hip, hj]
        · simp [hip, hcp]

theorem Folding.owned (hg : Folding folder f ds g) (h : f.Owned cs) : g.Owned (cs ++ ds) := by
  induction hg with
  | refl => rwa [List.append_nil]
  | absorb _ _ _ hchildren _ ih =>
    rw [← List.append_assoc]
    exact ih.absorbOnlyChild hchildren "/"
  | sort _ i ih =>
    exact ih.congr ih.coherent.sortChildren (fun _ => parent_modifyChildren)
      fun _ _ => mem_children_sortChildren_iff

/-! ## Moving -/

/-- The forest `g` is `f`, but for the node `i`: it stands below `target` now, as its last child. -/
structure Moved (f : Forest) (i target : NodeId) (g : Forest) : Prop where
  size_eq : g.size = f.size
  label_eq : ∀ j, g.label j = f.label j
  parent_eq : ∀ j, g.parent j = if j = i then some target else f.parent j
  children_eq : ∀ j, g.children j =
    (if f.parent i = some j then (f.children j).erase i else f.children j) ++
      if j = target then [i] else []

/-- A node is attached where only its parent does not list it any more. -/
theorem moved_attach {h : Forest} (hi : i < f.size) (ht : target < f.size) (hsize : h.size = f.size)
    (hlabel : ∀ j, h.label j = f.label j) (hparent : ∀ j, h.parent j = f.parent j)
    (hchildren : ∀ j, h.children j =
      if f.parent i = some j then (f.children j).erase i else f.children j) :
    f.Moved i target (h.attach i target) where
  size_eq := size_attach.trans hsize
  label_eq j := label_attach.trans (hlabel j)
  parent_eq j := by simp only [parent_attach, hparent, hsize, hi, and_true, eq_comm]
  children_eq j := by
    rw [children_attach (hsize ▸ ht), hchildren]
    by_cases hj : j = target
    · rw [if_pos hj, if_pos hj.symm]
    · rw [if_neg hj, if_neg (Ne.symm hj), List.append_nil]

theorem moved_of_move_eq_ok (hi : i < f.size) (ht : target < f.size)
    (h : f.move i target = .ok g) : f.Moved i target g := by
  unfold Forest.move at h
  split at h
  · next hp =>
    cases h
    refine moved_attach hi ht rfl (fun _ => rfl) (fun _ => rfl) fun j => ?_
    rw [hp, if_neg (Option.some_ne_none j).symm]
  · next p hp =>
    split at h
    · cases h
      refine moved_attach hi ht size_modifyChildren (fun _ => label_modifyChildren)
        (fun _ => parent_modifyChildren) fun j => ?_
      simp only [hp, Option.some_inj]
      exact children_modifyChildren_of_nil (List.erase_nil i)
    · cases h

/-- A move is refused if and only if the parent does not list the node. -/
theorem move_eq_error_iff : f.move i target = .error .notListed ↔ f.Unlisted i := by
  rw [Unlisted, Forest.move]
  cases hp : f.parent i with
  | none => simp
  | some p => by_cases hmem : i ∈ f.children p <;> simp [hmem]

theorem exists_move_eq_ok (h : ¬f.Unlisted i) (target : NodeId) :
    ∃ g, f.move i target = .ok g := by
  cases hmove : f.move i target with
  | ok g => exact ⟨g, rfl⟩
  | error e => exact absurd (move_eq_error_iff.1 hmove) h

/-- The moved node is listed before and afterwards, and no other one changes its place. -/
theorem Owned.move (h : f.Owned cs) (hi : i < f.size) (ht : target < f.size)
    (hne : target ≠ i) (hup : ¬f.Ascends target i) (hg : f.move i target = .ok g) :
    g.Owned cs := by
  obtain ⟨-, -, hparent, hchildren⟩ := moved_of_move_eq_ok hi ht hg
  refine ⟨h.coherent.move hi ht hg, fun j hj => ?_, fun j => ?_⟩
  · rcases Ascends.of_setParent hparent hj with hj | ⟨hji, hjt⟩
    · exact h.acyclic j hj
    · -- The new link would lead back to where it starts.
      rcases hji with rfl | hji <;> rcases hjt with rfl | hjt
      · exact hne rfl
      · exact hup hjt
      · exact hup hji
      · exact hup (hjt.trans hji)
  · rw [← h.unlisted_iff]
    by_cases hj : j = i
    · subst hj
      have hlisted : ¬f.Unlisted j := fun hj => by
        rw [move_eq_error_iff.2 hj] at hg
        cases hg
      refine iff_of_false ?_ hlisted
      rintro ⟨p, hp, hmem⟩
      rw [hparent, if_pos rfl, Option.some_inj] at hp
      subst hp
      exact hmem (by simp [hchildren])
    · simp only [Unlisted, hparent, if_neg hj, hchildren]
      refine exists_congr fun p => and_congr_right fun _ => not_congr ?_
      have herase : j ∈ (f.children p).erase i ↔ j ∈ f.children p := List.mem_erase_of_ne hj
      split <;> split <;> simp [hj, herase]

/-! ## Runs -/

/-- A move puts no node below itself, nor below one that it is on the way up of. -/
def Call.Acyclic (f : Forest) : Call → Prop
  | .move i target => target ≠ i ∧ ¬f.Ascends target i
  | _ => True

/-- The nodes that are absorbed in a call. -/
def Call.absorbed (f : Forest) : Call → List NodeId
  | .absorbOnlyChild i _ => f.absorbedBy i
  | .mergeFolders i folder => absorbedTo folder f.size f i
  | .mergeFoldersBelow i folder =>
    along (fun g c => g.mergeFolders c folder) (fun g c => absorbedTo folder g.size g c) f
      (f.children i)
  | .addChild .. | .setLevel .. | .fileNode .. | .addException .. | .addCleanedException ..
  | .move .. => []

theorem Fresh.owned (hf : f.Fresh) : f.Owned [] where
  coherent := hf.coherent
  acyclic i hi := by
    obtain ⟨p, hp, -⟩ := Relation.TransGen.head'_iff.1 hi
    rw [hf.parent_eq] at hp
    cases hp
  unlisted_iff i := by simp [Unlisted, hf.parent_eq]

theorem Owned.absorbedBy (h : f.Owned cs) (i : NodeId) (sep : Text) :
    (f.absorbOnlyChild i sep).Owned (cs ++ f.absorbedBy i) := by
  rw [Forest.absorbedBy]
  split
  · next c hc => exact h.absorbOnlyChild hc sep
  · next hne =>
    rcases f.absorbOnlyChild_cases i sep with hsame | ⟨c, hc⟩
    · rwa [hsame, List.append_nil]
    · exact absurd hc (hne c)

theorem Owned.perform (h : f.Owned cs) {c : Call} (hc : ∀ i ∈ c.nodes, i < f.size)
    (hm : c.Acyclic f) : (f.perform c).Owned (cs ++ c.absorbed f) := by
  have hgrowth (hgrows : c.Grows f) : (f.perform c).Owned cs :=
    (growth_perform h.coherent hc hgrows).owned h
  cases c with
  | addChild | setLevel | fileNode | addException | addCleanedException =>
    rw [Call.absorbed, List.append_nil]
    exact hgrowth trivial
  | absorbOnlyChild i sep => exact h.absorbedBy i sep
  | mergeFolders i folder => exact (folding_mergeFolders folder f i).owned h
  | mergeFoldersBelow i folder => exact (folding_mergeFoldersBelow folder f i).owned h
  | move i target =>
    rw [Call.absorbed, List.append_nil, Forest.perform]
    cases hg : f.move i target with
    | ok g => exact h.move (hc i (.head _)) (hc target (.tail _ (.head _))) hm.1 hm.2 hg
    | error e => exact h

theorem Logged.owned (hf : f.Fresh) (h : Logged Call.Acyclic Call.absorbed f cs g) :
    g.Owned cs := by
  induction h with
  | start => exact hf.owned
  | call _ hc hm ih => exact ih.perform hc hm

/-- After a run nothing is listed twice, and a listed node names who lists it. A node names a parent
that does not list it if and only if it was absorbed. Moving such a node is refused and changes
nothing; moving any other one changes its parent and the two lists. -/
theorem Logged.ownership (hf : f.Fresh) (h : Logged Call.Acyclic Call.absorbed f cs g) :
    (∀ i, (g.children i).Nodup) ∧
    (∀ i, ∀ c ∈ g.children i, g.parent c = some i) ∧
    (∀ i j c, c ∈ g.children i → c ∈ g.children j → i = j) ∧
    (∀ i, g.Unlisted i ↔ i ∈ cs) ∧
    (∀ i ∈ cs, ∀ target,
      g.move i target = .error .notListed ∧ g.perform (.move i target) = g) ∧
    ∀ i target, i < g.size → target < g.size → i ∉ cs →
      ∃ k, g.move i target = .ok k ∧ g.perform (.move i target) = k ∧ g.Moved i target k := by
  have howned := h.owned hf
  refine ⟨howned.coherent.nodup, fun i c => howned.coherent.parent_eq,
    fun i j c => howned.coherent.eq_of_mem, howned.unlisted_iff, fun i hi target => ?_,
    fun i target hi ht hcs => ?_⟩
  · have herror : g.move i target = .error .notListed :=
      move_eq_error_iff.2 ((howned.unlisted_iff i).2 hi)
    refine ⟨herror, ?_⟩
    rw [perform, herror]
    rfl
  · obtain ⟨k, hk⟩ := exists_move_eq_ok (mt (howned.unlisted_iff i).1 hcs) target
    refine ⟨k, hk, ?_, moved_of_move_eq_ok hi ht hk⟩
    rw [perform, hk]
    rfl

/-- A node gets a child after it was absorbed. The child moves away, the node itself stays. -/
theorem Logged.ownership_absorbed :
    ∃ (f g : Forest) (cs : List NodeId), f.Fresh ∧ Logged Call.Acyclic Call.absorbed f cs g ∧
      cs = [2] ∧ g.Unlisted 2 ∧ g.move 2 1 = .error .notListed ∧
      ∃ k, g.move 3 1 = .ok k ∧ g.Moved 3 1 k := by
  have hroots : ((empty.addRoot "Build").2.addRoot "Docs").2.Fresh :=
    (fresh_empty.addRoot "Build").addRoot "Docs"
  have hadd : Logged Call.Acyclic Call.absorbed ((empty.addRoot "Build").2.addRoot "Docs").2 _ _ :=
    (Logged.start.call (c := .addChild 0 "src") (by decide) trivial).call
      (c := .addChild 2 "main.c") (by decide) trivial
  have habsorb := hadd.call (c := .absorbOnlyChild 0 "/") (by decide) trivial
  have hchild := habsorb.call (c := .addChild 2 "lost") (by decide) trivial
  have hmove := hchild.call (c := .move 4 1) (by decide) ⟨by decide, fun h => by
    obtain ⟨p, hp, -⟩ := Relation.TransGen.head'_iff.1 h
    cases hp⟩
  obtain ⟨-, -, -, hunlisted, hrefused, hmoved⟩ := hmove.ownership hroots
  obtain ⟨k, hk, -, hmoved⟩ := hmoved 3 1 (by decide) (by decide) (by decide +kernel)
  exact ⟨_, _, _, hroots, hmove, by decide +kernel, (hunlisted 2).2 (by decide +kernel),
    (hrefused 2 (by decide +kernel) 1).1, k, hk, hmoved⟩

end ReportTree.Forest
