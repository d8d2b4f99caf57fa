import ReportTree.Proofs.Forest.Grounded

/-!
# Refusals on the way up

Where a node is raised, its less severe ancestors are raised with it, and every one of them could
refuse the level as lower than its own. Here levels are given so that every node makes this check,
the parent before the node. In a grounded forest the check only fails where a caller sets a level: at
the node of the call, if its level is more severe.

* `Edits.grounded`: edits keep a forest grounded.
* `Checked.giveFrom_eq`: no ancestor refuses, for the way up only leads to less severe ones.
* `Checked.setLevel_eq`: setting a level checks nothing but the level of the node itself.
* `attempt_eq_pure`, `attempt_setLevel`: what calls come to that make all the checks.
-/

namespace ReportTree.Forest

/-- What comes of an operation that checks the levels it gives: a result, a refusal, or nothing if
it does not come to an end. -/
abbrev Checked (α : Type) := ExceptT Lowering Option α

namespace Checked

/-- Gives the level `l` to the node `i`, after its parent if that is less severe, in `steps` calls
at most. Every node checks that the level is not lower than its own. Nothing has changed yet where
one refuses. -/
def giveFrom (l : Level) : (steps : Nat) → NodeId → Forest → Checked Forest
  | 0, _, _ => ExceptT.mk none
  | steps + 1, i, f =>
    if l = f.level i then pure f
    else if (f.level i).higher l then throw ⟨(f.label i).name, f.level i, l⟩
    else
      match f.parent i with
      | none => pure (f.showLevel i l)
      | some p =>
        if l.higher (f.level p) then (·.showLevel i l) <$> giveFrom l steps p f
        else pure (f.showLevel i l)

/-- Gives the level `l` to the node `i`. A way up has no more nodes than the forest. -/
def give (f : Forest) (i : NodeId) (l : Level) : Checked Forest := giveFrom l f.size i f

/-- Sets the level of a node. No level changes nothing. -/
def setLevel (f : Forest) (i : NodeId) : Option Level → Checked Forest
  | none => pure f
  | some l => give f i l

end Checked

/-- The forest after a call that makes all the checks. Merging and moving give no levels. -/
def attempt (f : Forest) : Call → Checked Forest
  | .addChild i markup => Prod.snd <$> addChildBy Checked.give f i markup
  | .setLevel i l => Checked.setLevel f i l
  | .fileNode i path folder file => Prod.snd <$> fileNodeBy Checked.give f i path folder file
  | .addException i g e => Prod.snd <$> addAccountBy Checked.give f g i (g.account id e)
  | .addCleanedException i g e => Prod.snd <$> addAccountBy Checked.give f g i (g.account g.clean e)
  | c => pure (f.perform c)

variable {f g : Forest} {i : NodeId} {l : Level} {ds : List Demand}

/-! ## Ways up after edits -/

theorem Edit.acyclic (h : Edit f g) (hf : f.Coherent) (ha : f.Acyclic) : g.Acyclic := by
  have hsame {k : Forest} (hparent : ∀ j, k.parent j = f.parent j) : k.Acyclic :=
    ha.of_parent fun a b hb => .single ((hparent a).symm.trans hb)
  cases h with
  | relabel i hg => exact hsame fun _ => parent_modifyLabel
  | grow hi hx => exact ha.addBelow hf hi
  | raise hi hl => exact hsame fun _ => parent_raise
  | absorb i sep => exact ha.absorbOnlyChild hf
  | sort i => exact hsame fun _ => parent_modifyChildren

theorem Edits.grounded (h : Edits f g) (hf : f.Coherent) (hg : f.Grounded) : g.Grounded := by
  refine Acyclic.grounded ?_ (h.coherent hf)
  induction h with
  | refl => exact hg.acyclic
  | tail hs h ih => exact h.acyclic (Edits.coherent hs hf) ih

theorem Growth.grounded (h : Growth f ds g) (hf : f.Coherent) (hg : f.Grounded) : g.Grounded :=
  h.edits.grounded hf hg

/-! ## Giving a level -/

namespace Checked

/-- The nodes on the way up from `i`. -/
noncomputable def ancestors (f : Forest) (i : NodeId) : Finset NodeId :=
  open Classical in (Finset.range f.size).filter (f.Ascends i)

/-- A parent has a shorter way up. -/
theorem ancestors_ssubset (hf : f.Coherent) (ha : f.Acyclic) {p : NodeId}
    (hp : f.parent i = some p) : ancestors f p ⊂ ancestors f i := by
  classical
  have hmem : p ∈ ancestors f i :=
    Finset.mem_filter.2 ⟨Finset.mem_range.2 (hf.parent_lt hp), .single hp⟩
  refine ⟨Finset.monotone_filter_right _ fun j _ hj => .head hp hj, fun h => ?_⟩
  exact ha p (Finset.mem_filter.1 (h hmem)).2

theorem card_ancestors_lt (ha : f.Acyclic) (hi : i < f.size) : (ancestors f i).card < f.size := by
  classical
  have hsub : ancestors f i ⊂ Finset.range f.size :=
    ⟨Finset.filter_subset .., fun h => ha i (Finset.mem_filter.1 (h (Finset.mem_range.2 hi))).2⟩
  exact (Finset.card_lt_card hsub).trans_eq (Finset.card_range f.size)

/-- No ancestor refuses: a call for a parent is made only if the parent is less severe, and its
level has not changed since. -/
theorem giveFrom_eq (hf : f.Coherent) (ha : f.Acyclic) (h : Raises f l i g)
    (hl : l.higher (f.level i) = true) {steps : Nat} (hsteps : (ancestors f i).card < steps) :
    giveFrom l steps i f = pure g := by
  have hchecks {j : NodeId} (hl : l.higher (f.level j) = true) :
      l ≠ f.level j ∧ ¬(f.level j).higher l = true := by
    rw [Level.higher_iff] at hl ⊢
    refine ⟨?_, Nat.not_lt_of_lt hl⟩
    rintro rfl
    exact Nat.lt_irrefl _ hl
  induction h generalizing steps with
  | @stop i hstop =>
    obtain ⟨steps, rfl⟩ := Nat.exists_eq_succ_of_ne_zero (Nat.ne_zero_of_lt hsteps)
    rw [giveFrom, if_neg (hchecks hl).1, if_neg (hchecks hl).2]
    split
    · rfl
    · next p hp => rw [if_neg (Bool.eq_false_iff.1 (hstop p hp))]
  | @up i p k hp hlp hk ih =>
    obtain ⟨steps, rfl⟩ := Nat.exists_eq_succ_of_ne_zero (Nat.ne_zero_of_lt hsteps)
    have hcard := Finset.card_lt_card (ancestors_ssubset hf ha hp)
    rw [giveFrom, if_neg (hchecks hl).1, if_neg (hchecks hl).2, hp]
    dsimp only
    rw [if_pos hlp, ih hlp (Nat.lt_of_lt_of_le hcard (Nat.le_of_lt_succ hsteps)), map_pure]

variable (hf : f.Coherent) (hg : f.Grounded)

include hf hg

theorem give_of_higher (hi : i < f.size) (hl : l.higher (f.level i) = true) :
    give f i l = pure (f.raise i l) :=
  giveFrom_eq hf hg.acyclic (hg.raises hf hi l) hl (card_ancestors_lt hg.acyclic hi)

/-- A node without a level refuses none. -/
theorem give_of_none (hi : i < f.size) (hl : f.level i = .none) :
    give f i l = pure (f.raise i l) := by
  by_cases hnone : l = .none
  · obtain ⟨steps, hsteps⟩ := Nat.exists_eq_succ_of_ne_zero (Nat.ne_zero_of_lt hi)
    rw [hnone, raise_none hi hl, give, hsteps, giveFrom, if_pos hl.symm]
  · refine give_of_higher hf hg hi ?_
    rw [hl]
    exact Level.higher_none hnone

/-- A new node takes any level. -/
theorem give_addBelow (hi : i < f.size) {x : Label} (hx : x.level = .none) :
    give (f.addBelow i x).2 f.size l = pure ((f.addBelow i x).2.raise f.size l) := by
  have hgrow : Growth f [] (f.addBelow i x).2 := Growth.refl.grow hi hx
  refine give_of_none (hgrow.coherent hf) (hgrow.grounded hf hg) lt_size_addBelow ?_
  rw [level_addBelow, if_pos rfl, hx]

/-- Setting a level checks nothing but the level of the node itself. -/
theorem setLevel_eq (hi : i < f.size) (l : Option Level) :
    setLevel f i l = ExceptT.mk (some (f.setLevel i l)) := by
  cases l with
  | none => rfl
  | some l =>
    obtain ⟨steps, hsteps⟩ := Nat.exists_eq_succ_of_ne_zero (Nat.ne_zero_of_lt hi)
    rw [setLevel, Forest.setLevel]
    by_cases heq : l = f.level i
    · rw [if_pos heq, give, hsteps, giveFrom, if_pos heq]
      rfl
    · rw [if_neg heq]
      by_cases hlow : (f.level i).higher l = true
      · rw [if_pos hlow, give, hsteps, giveFrom, if_neg heq, if_pos hlow]
        rfl
      · rw [if_neg hlow]
        refine give_of_higher hf hg hi ?_
        rw [Level.higher_iff] at hlow ⊢
        exact Nat.lt_of_le_of_ne (Nat.le_of_not_lt hlow) fun h => heq (Level.rank_inj.1 h)

/-! ## Markup and paths -/

theorem addLineBy_eq (hi : i < f.size) (line : Markup.Line) :
    addLineBy give f i line = pure (f.addLine i line) := by
  have hopen := growsTo_openDown hf hi line.depth
  rw [addLineBy, addLine_eq]
  generalize openDown line.depth i f = r at *
  obtain ⟨target, k⟩ := r
  have hgive := give_addBelow (l := line.level) (hopen.coherent hf) (hopen.growth.grounded hf hg)
    hopen.lt (x := { name := line.name, icon := line.icon }) rfl
  simp only [addBelow_fst]
  rw [hgive, map_pure]

theorem addChildBy_eq (hi : i < f.size) (markup : Text) :
    addChildBy give f i markup = pure (f.addChild i markup) :=
  addLineBy_eq hf hg hi _

theorem openSegmentBy_eq (hi : i < f.size) (folder segment : Text) :
    openSegmentBy give folder i f segment = pure (openSegment folder i f segment) := by
  rw [openSegmentBy, openSegment_eq]
  cases f.childNamed? i segment with
  | some c => rfl
  | none =>
    dsimp only
    split
    · have hicon : Growth f [] (f.setIcon i folder) := Growth.refl.relabel i fun _ => rfl
      exact addChildBy_eq (hicon.coherent hf) (hicon.grounded hf hg)
        (Nat.lt_of_lt_of_le hi hicon.size_le) segment
    · exact addChildBy_eq hf hg hi segment

theorem openSegmentsBy_eq (hi : i < f.size) (folder : Text) (path : List Text) :
    openSegmentsBy give folder i f path = pure (openSegments folder i f path) := by
  induction path generalizing i f with
  | nil => rfl
  | cons segment path ih =>
    have hopen := growsTo_openSegment hf hi folder segment
    rw [openSegmentsBy, openSegmentBy_eq hf hg hi, pure_bind, openSegments_cons]
    exact ih (hopen.coherent hf) (hopen.growth.grounded hf hg) hopen.lt

theorem fileNodeBy_eq (hi : i < f.size) (path folder file : Text) :
    fileNodeBy give f i path folder file = pure (f.fileNode i path folder file) := by
  rw [fileNodeBy, openSegmentsBy_eq hf hg hi, pure_bind, fileNode_eq]

/-! ## Failures -/

theorem addChildrenBy_eq (hi : i < f.size) (lines : List Text) :
    addChildrenBy give i f lines = pure (addChildren i f lines) := by
  induction lines generalizing f with
  | nil => rfl
  | cons line lines ih =>
    have hadd := (growsTo_addChild hf hi line).growth
    rw [addChildrenBy, addChildBy_eq hf hg hi, pure_bind, addChildren_cons]
    exact ih (hadd.coherent hf) (hadd.grounded hf hg) (Nat.lt_of_lt_of_le hi hadd.size_le)

theorem addFailureBy_eq (hi : i < f.size) (x : Failure) :
    addFailureBy give f i x = pure (f.addFailure i x) := by
  have hnode : GrowsTo f [⟨f.size, .error⟩] (f.size, f.failureNode i x) :=
    ((GrowsTo.refl hi).growRaised (x := { name := (messageLines x.displayText).1 }) rfl
      .error).relabel (x := fun l => { l with expanded := true }) fun _ => rfl
  have hlines := addChildrenBy_eq (hnode.coherent hf) (hnode.growth.grounded hf hg) hnode.lt
    (messageLines x.displayText).2
  rw [addFailure_eq, ← addChildren_eq, addFailureBy]
  simp only [addBelow_fst]
  rw [give_addBelow hf hg hi rfl, pure_bind]
  rw [failureNode] at hlines ⊢
  rw [hlines, map_pure]

omit hf hg in
mutual

theorem addAccountBy_eq {f : Forest} {i : NodeId} (hf : f.Coherent) (hg : f.Grounded)
    (hi : i < f.size) (failures : Failures) (a : Failures.Account) :
    addAccountBy give f failures i a = pure (f.addAccount failures i a) := by
  match a with
  | .of e parts =>
    have hadd := growsTo_addFailure hf hi (failures.get e)
    rw [addAccountBy, addFailureBy_eq hf hg hi, pure_bind, addAccount_of]
    dsimp only
    rw [addAccountsBy_eq (hadd.coherent hf) (hadd.growth.grounded hf hg) hadd.lt, map_pure]

theorem addAccountsBy_eq {f : Forest} {i : NodeId} (hf : f.Coherent) (hg : f.Grounded)
    (hi : i < f.size) (failures : Failures) (as : List Failures.Account) :
    addAccountsBy give f failures i as = pure (f.addAccounts failures i as) := by
  match as with
  | [] => rfl
  | a :: as =>
    have hadd := (growsTo_addAccount hf hi failures a).growth
    rw [addAccountsBy, addAccountBy_eq hf hg hi, pure_bind, addAccounts_cons]
    exact addAccountsBy_eq (hadd.coherent hf) (hadd.grounded hf hg)
      (Nat.lt_of_lt_of_le hi hadd.size_le) failures as

end

end Checked

/-! ## Calls -/

theorem attempt_setLevel (hf : f.Coherent) (hg : f.Grounded) (hi : i < f.size) (l : Option Level) :
    f.attempt (.setLevel i l) = ExceptT.mk (some (f.setLevel i l)) :=
  Checked.setLevel_eq hf hg hi l

/-- A call that sets no level is never refused. -/
theorem attempt_eq_pure (hf : f.Coherent) (hg : f.Grounded) {c : Call}
    (hc : ∀ i ∈ c.nodes, i < f.size) (hset : ∀ i l, c ≠ .setLevel i l) :
    f.attempt c = pure (f.perform c) := by
  cases c with
  | addChild i markup =>
    rw [attempt, Checked.addChildBy_eq hf hg (hc i (.head _)), map_pure]
    rfl
  | setLevel i l => exact absurd rfl (hset i l)
  | fileNode i path folder file =>
    rw [attempt, Checked.fileNodeBy_eq hf hg (hc i (.head _)), map_pure]
    rfl
  | addException i failures e | addCleanedException i failures e =>
    rw [attempt, Checked.addAccountBy_eq hf hg (hc i (.head _)), map_pure]
    rfl
  | absorbOnlyChild | mergeFolders | mergeFoldersBelow | move => rfl

end ReportTree.Forest
