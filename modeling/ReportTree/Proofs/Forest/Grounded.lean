import Mathlib.Data.Fintype.EquivFin
import ReportTree.Proofs.Forest.Ownership
import ReportTree.Proofs.Forest.Ranked

/-!
# Ways up that end

In a grounded forest every way up comes to a node without a parent, and raising a node, which
raises the less severe nodes on its way up first, comes to an end. A run keeps a forest grounded as
long as no node is moved below one that has it on its way up. The lists of children do not show all
of these moves: an absorbed node is below nobody, but it still has the node that absorbed it on its
way up.

* `Acyclic.grounded`, `Grounded.acyclic`: the ways up of a coherent forest end if there is no
  circle of parents.
* `Acyclic.ranked`: the ways down of such a forest end, too.
* `Grounded.raises`: what is then raised is what `raise` computes.
* `Ascends.exists_unlisted`: a way up past the lists of children leads over an unlisted node.
* `Logged.grounded_iff`: the runs that keep a forest grounded.
* `not_grounded_of_outside`: a run that does not.
-/

namespace ReportTree.Forest

/-- Parents lead from every node to one without a parent. -/
def Grounded (f : Forest) : Prop :=
  ∀ i, ∃ r, Relation.ReflTransGen (fun a b => f.parent a = some b) i r ∧ f.parent r = none

/-- Raising the node to `l` comes to an end with a forest. A parent that is less severe is raised
first: what is compared are the levels before anything was raised. -/
inductive Raises (f : Forest) (l : Level) : NodeId → Forest → Prop
  | stop {i : NodeId} (h : ∀ p, f.parent i = some p → l.higher (f.level p) = false) :
      Raises f l i (f.showLevel i l)
  | up {i p : NodeId} {g : Forest} (hp : f.parent i = some p) (hl : l.higher (f.level p) = true)
      (h : Raises f l p g) : Raises f l i (g.showLevel i l)

/-- A move puts no node below itself, as the lists of children tell. -/
def Call.Outside (f : Forest) : Call → Prop
  | .move i target => ¬f.Within i target
  | _ => True

/-- A move that is not refused puts a node below one that has it on its way up. -/
def Call.Loops (f : Forest) : Call → Prop
  | .move i target => (∃ g, f.move i target = .ok g) ∧ f.Ascends target i
  | _ => False

/-- A call, with the forest in which it is made. -/
def Call.recorded (f : Forest) (c : Call) : List (Forest × Call) := [(f, c)]

variable {f g : Forest} {i j r target : NodeId} {l : Level} {cs : List NodeId} {c : Call}

/-! ## Circles -/

theorem ascends_iff_of_parent_eq {p : NodeId} (hp : f.parent i = some p) :
    f.Ascends i j ↔ p = j ∨ f.Ascends p j := by
  rw [Ascends, Relation.TransGen.head'_iff]
  constructor
  · rintro ⟨q, hq, h⟩
    rw [hp] at hq
    cases hq
    exact (Relation.reflTransGen_iff_eq_or_transGen.1 h).imp_left Eq.symm
  · rintro (rfl | h)
    · exact ⟨p, hp, .refl⟩
    · exact ⟨p, hp, h.to_reflTransGen⟩

/-- Every way up from a node on a circle stays on the circle. -/
theorem Grounded.acyclic (hf : f.Grounded) : f.Acyclic := by
  intro i hi
  obtain ⟨r, hr, hnone⟩ := hf i
  have hcircle : f.Ascends r i := by
    clear hnone
    induction hr with
    | refl => exact hi
    | @tail a b _ hb ih =>
      rcases (ascends_iff_of_parent_eq hb).1 ih with rfl | h
      · exact hi
      · exact h
  obtain ⟨p, hp, -⟩ := Relation.TransGen.head'_iff.1 hcircle
  rw [hnone] at hp
  cases hp

/-- There are finitely many nodes, so a way up that goes on for ever would come back. -/
theorem Acyclic.grounded (ha : f.Acyclic) (hf : f.Coherent) : f.Grounded := by
  have hwf : WellFounded fun a b : Fin f.size => f.Ascends b a := by
    have htrans : IsTrans (Fin f.size) fun a b => f.Ascends b a := ⟨fun _ _ _ h h' => h'.trans h⟩
    have hirrefl : Std.Irrefl fun a b : Fin f.size => f.Ascends b a := ⟨fun a => ha a⟩
    exact Finite.wellFounded_of_trans_of_irrefl _
  have hnode (a : Fin f.size) :
      ∃ r, Relation.ReflTransGen (fun a b => f.parent a = some b) a r ∧ f.parent r = none := by
    induction a using hwf.induction with
    | _ a ih =>
      cases hp : f.parent a with
      | none => exact ⟨a, .refl, hp⟩
      | some p =>
        obtain ⟨r, hr, hnone⟩ := ih ⟨p, hf.parent_lt hp⟩ (.single hp)
        exact ⟨r, .head hp hr, hnone⟩
  intro i
  by_cases hi : i < f.size
  · exact hnode ⟨i, hi⟩
  · exact ⟨i, .refl, parent_of_size_le (Nat.le_of_not_lt hi)⟩

/-! ## Ranks -/

/-- The nodes below `i`. -/
noncomputable def descendants (f : Forest) (i : NodeId) : Finset NodeId :=
  open Classical in (Finset.range f.size).filter (f.Descends i)

theorem Descends.ascends (h : f.Descends i j) (hf : f.Coherent) : f.Ascends j i := by
  induction h with
  | single hc => exact .single (hf.parent_eq hc)
  | tail _ hc ih => exact .head (hf.parent_eq hc) ih

/-- Less is below a child. -/
theorem descendants_ssubset (ha : f.Acyclic) (hf : f.Coherent) {d : NodeId}
    (hd : d ∈ f.children i) : f.descendants d ⊂ f.descendants i := by
  classical
  have hmem : d ∈ f.descendants i :=
    Finset.mem_filter.2 ⟨Finset.mem_range.2 (hf.child_lt hd), .single hd⟩
  refine ⟨Finset.monotone_filter_right _ fun j _ hj => .head hd hj, fun h => ?_⟩
  exact ha d (Descends.ascends (Finset.mem_filter.1 (h hmem)).2 hf)

theorem card_descendants_le (ha : f.Acyclic) (hf : f.Coherent) (i : NodeId) :
    (f.descendants i).card ≤ f.size - 1 := by
  classical
  by_cases hi : i < f.size
  · have hsub : f.descendants i ⊂ Finset.range f.size :=
      ⟨Finset.filter_subset .., fun h =>
        ha i (Descends.ascends (Finset.mem_filter.1 (h (Finset.mem_range.2 hi))).2 hf)⟩
    have hcard := Finset.card_lt_card hsub
    rw [Finset.card_range] at hcard
    omega
  · have hempty : f.descendants i = ∅ := by
      refine Finset.filter_eq_empty_iff.2 fun j _ hj => hi ?_
      obtain ⟨k, hk, -⟩ := Relation.TransGen.head'_iff.1 hj
      exact lt_size_of_mem_children hk
    rw [hempty]
    exact Nat.zero_le _

/-- Where no node is on its own way up, the number of nodes below a node falls on every way
down. -/
theorem Acyclic.ranked (ha : f.Acyclic) (hf : f.Coherent) :
    f.Ranked fun i => (f.descendants i).card where
  lt _ _ hc := Finset.card_lt_card (descendants_ssubset ha hf hc)
  le := card_descendants_le ha hf

/-! ## Raising -/

theorem Raises.size_eq (h : Raises f l i g) : g.size = f.size := by
  induction h with
  | stop => exact size_showLevel ..
  | up _ _ _ ih => rw [size_showLevel, ih]

theorem Raises.links_eq (h : Raises f l i g) (j : NodeId) :
    g.parent j = f.parent j ∧ g.children j = f.children j := by
  induction h with
  | stop => exact ⟨parent_modifyLabel, children_modifyLabel⟩
  | up _ _ _ ih => exact ⟨parent_modifyLabel.trans ih.1, children_modifyLabel.trans ih.2⟩

/-- The nodes to which the level climbs show it, and nothing else changes. -/
theorem Raises.label_eq (hf : ∀ {j p}, f.parent j = some p → p < f.size) (h : Raises f l i g)
    (hi : i < f.size) (j : NodeId) :
    (Climbs f l i j → g.label j = { f.label j with level := l }) ∧
      (¬Climbs f l i j → g.label j = f.label j) := by
  have hshow {k : Forest} {i : NodeId} (hi : i < k.size) :
      (k.showLevel i l).label j = if i = j then { k.label j with level := l } else k.label j := by
    rw [showLevel, label_modifyLabel]
    simp only [hi, and_true]
  induction h with
  | @stop i hstop =>
    have hnone : ¬∃ p, f.parent i = some p ∧ l.higher (f.level p) = true ∧ Climbs f l p j := by
      rintro ⟨p, hp, hl, -⟩
      rw [hstop p hp] at hl
      cases hl
    rw [hshow hi, climbs_iff_head, or_iff_left hnone]
    exact ⟨fun h => if_pos h, fun h => if_neg h⟩
  | @up i p k hp hl hk ih =>
    have hhead : Climbs f l i j ↔ i = j ∨ Climbs f l p j := by
      rw [climbs_iff_head]
      simp [hp, hl]
    obtain ⟨hyes, hno⟩ := ih (hf hp)
    rw [hshow (hk.size_eq ▸ hi), hhead]
    by_cases hij : i = j
    · simp only [hij, if_true, true_or, not_true, false_imp_iff, and_true, forall_const]
      by_cases hc : Climbs f l p j
      · rw [hyes hc]
      · rw [hno hc]
    · simpa only [if_neg hij, hij, false_or] using ⟨hyes, hno⟩

/-- Raising parents first comes to what `raise` computes. -/
theorem Raises.eq_raise (hf : ∀ {j p}, f.parent j = some p → p < f.size) (h : Raises f l i g)
    (hi : i < f.size) : g = f.raise i l := by
  refine eq_of_reads (h.size_eq.trans (size_raise ..).symm) (fun j => ?_)
    (fun j => (h.links_eq j).1.trans parent_raise.symm)
    fun j => (h.links_eq j).2.trans children_raise.symm
  obtain ⟨hyes, hno⟩ := h.label_eq hf hi j
  obtain ⟨hraised, hkept⟩ := level_raiseFrom hf hi (card_below_erase_lt (l := l) hi) j
  rw [label_raise, raise]
  by_cases hc : Climbs f l i j
  · rw [hyes hc, hraised hc]
  · rw [hno hc, hkept hc]
    rfl

/-- In a grounded forest raising a node comes to an end. -/
theorem Grounded.exists_raises (hg : f.Grounded) (i : NodeId) (l : Level) :
    ∃ k, Raises f l i k := by
  obtain ⟨r, hr, hroot⟩ := hg i
  induction hr using Relation.ReflTransGen.head_induction_on with
  | refl =>
    refine ⟨_, .stop fun p hp => ?_⟩
    rw [hroot] at hp
    cases hp
  | @head a p hp _ ih =>
    cases hl : l.higher (f.level p) with
    | true =>
      obtain ⟨k, hk⟩ := ih
      exact ⟨_, .up hp hl hk⟩
    | false =>
      refine ⟨_, .stop fun q hq => ?_⟩
      rw [hp] at hq
      cases hq
      exact hl

theorem Grounded.raises (hg : f.Grounded) (hf : f.Coherent) (hi : i < f.size) (l : Level) :
    Raises f l i (f.raise i l) := by
  obtain ⟨k, hk⟩ := hg.exists_raises i l
  exact hk.eq_raise hf.parent_lt hi ▸ hk

/-- Where all nodes of a set have a less severe parent in it, raising one of them comes to no
end. -/
theorem not_raises_of_forall {s : Set NodeId}
    (hs : ∀ j ∈ s, ∃ p ∈ s, f.parent j = some p ∧ l.higher (f.level p) = true) (hi : i ∈ s) :
    ¬Raises f l i g := by
  intro h
  induction h with
  | stop hstop =>
    obtain ⟨p, -, hp, hl⟩ := hs _ hi
    rw [hstop p hp] at hl
    cases hl
  | up hp _ _ ih =>
    obtain ⟨q, hq, hpq, -⟩ := hs _ hi
    rw [hp] at hpq
    cases hpq
    exact ih hq

/-! ## Moves -/

/-- A node that lists nothing of the way up to it stands above the lists of children: somebody on
the way is not listed. -/
theorem Ascends.exists_unlisted (h : f.Ascends target i) (hout : ¬f.Within i target) :
    ∃ u, Relation.ReflTransGen (fun a b => f.parent a = some b) target u ∧ f.Ascends u i ∧
      f.Unlisted u := by
  induction h using Relation.TransGen.head_induction_on with
  | @single a ha =>
    refine ⟨a, .refl, .single ha, i, ha, fun hmem => hout (.single hmem)⟩
  | @head a p hp hup ih =>
    by_cases hmem : a ∈ f.children p
    · obtain ⟨u, hu, hui, hunlisted⟩ := ih fun h => hout (h.tail hmem)
      exact ⟨u, .head hp hu, hui, hunlisted⟩
    · exact ⟨a, .refl, .head hp hup, p, hp, hmem⟩

/-- Moving a node below one that has it on its way up closes a circle. -/
theorem Moved.not_acyclic (h : f.Moved i target g) (hup : f.Ascends target i) : ¬g.Acyclic := by
  have hback {a : NodeId} (ha : f.Ascends a i) :
      Relation.ReflTransGen (fun a b => g.parent a = some b) a i := by
    induction ha using Relation.TransGen.head_induction_on with
    | @single a ha =>
      by_cases hai : a = i
      · exact hai ▸ .refl
      · refine .single ?_
        rw [h.parent_eq, if_neg hai]
        exact ha
    | @head a p hp _ ih =>
      by_cases hai : a = i
      · exact hai ▸ .refl
      · refine .head ?_ ih
        rw [h.parent_eq, if_neg hai]
        exact hp
  have hnew : g.parent i = some target := by rw [h.parent_eq, if_pos rfl]
  exact fun hg => hg i (.head' hnew (hback hup))

theorem Fresh.grounded (hf : f.Fresh) : f.Grounded :=
  hf.owned.acyclic.grounded hf.coherent

/-- A call that closes no circle leaves the links as they should be. -/
theorem Owned.perform_of_not_loops (h : f.Owned cs) (hc : ∀ i ∈ c.nodes, i < f.size)
    (hout : c.Outside f) (hloops : ¬c.Loops f) : ∃ ds, (f.perform c).Owned ds := by
  cases c with
  | move i target =>
    cases hg : f.move i target with
    | ok g =>
      have hne : target ≠ i := fun hti => hout (hti ▸ .refl)
      exact ⟨_, h.perform hc ⟨hne, fun hup => hloops ⟨⟨g, hg⟩, hup⟩⟩⟩
    | error e =>
      rw [Forest.perform, hg]
      exact ⟨cs, h⟩
  | addChild | setLevel | fileNode | addException | addCleanedException | absorbOnlyChild
  | mergeFolders | mergeFoldersBelow => exact ⟨_, h.perform hc trivial⟩

/-- A call that closes a circle leaves nodes without an end to their way up. -/
theorem Call.Loops.not_grounded (h : c.Loops f) (hc : ∀ i ∈ c.nodes, i < f.size) :
    ¬(f.perform c).Grounded := by
  cases c with
  | move i target =>
    obtain ⟨⟨g, hg⟩, hup⟩ := h
    have hmoved := moved_of_move_eq_ok (hc i (.head _)) (hc target (.tail _ (.head _))) hg
    rw [Forest.perform, hg]
    exact fun hgrounded => hmoved.not_acyclic hup hgrounded.acyclic
  | addChild | setLevel | fileNode | addException | addCleanedException | absorbOnlyChild
  | mergeFolders | mergeFoldersBelow => cases h

/-! ## Runs -/

variable {steps : List (Forest × Call)}

theorem Logged.owned_of_not_loops (hf : f.Fresh)
    (h : Logged Call.Outside Call.recorded f steps g) (hloops : ∀ s ∈ steps, ¬s.2.Loops s.1) :
    ∃ cs, g.Owned cs := by
  induction h with
  | start => exact ⟨[], hf.owned⟩
  | @call steps g _ c hc hm ih =>
    obtain ⟨cs, hcs⟩ := ih fun s hs => hloops s (List.mem_append_left _ hs)
    exact hcs.perform_of_not_loops hc hm
      (hloops (g, c) (List.mem_append_right _ (List.mem_singleton_self _)))

/-- In a run whose moves put no node below itself as the lists of children tell, all ways up end in
all its forests if and only if no move puts a node below one that has it on its way up. A move that
does leads over an unlisted node. While the ways up end, raising any node to any level ends. -/
theorem Logged.grounded_iff (hf : f.Fresh) (h : Logged Call.Outside Call.recorded f steps g) :
    ((g.Grounded ∧ ∀ s ∈ steps, s.1.Grounded) ↔ ∀ s ∈ steps, ¬s.2.Loops s.1) ∧
    (∀ k i target, (k, .move i target) ∈ steps → (Call.move i target).Loops k →
      ∃ u, Relation.ReflTransGen (fun a b => k.parent a = some b) target u ∧ k.Ascends u i ∧
        k.Unlisted u) ∧
    (g.Grounded → ∀ i < g.size, ∀ l, Raises g l i (g.raise i l)) := by
  refine ⟨?_, ?_, fun hg i hi l => hg.raises (h.run.coherent hf.coherent) hi l⟩
  · induction h with
    | start => simp [hf.grounded]
    | @call steps g hrun c hc hm ih =>
      simp only [Call.recorded, List.forall_mem_append, List.forall_mem_singleton]
      constructor
      · rintro ⟨hnext, hsteps, hg⟩
        exact ⟨ih.1 ⟨hg, hsteps⟩, fun hloops => hloops.not_grounded hc hnext⟩
      · rintro ⟨hsteps, hlast⟩
        obtain ⟨hg, hbefore⟩ := ih.2 hsteps
        obtain ⟨cs, hcs⟩ := hrun.owned_of_not_loops hf hsteps
        obtain ⟨ds, hds⟩ := hcs.perform_of_not_loops hc hm hlast
        exact ⟨hds.acyclic.grounded hds.coherent, hbefore, hg⟩
  · intro k i target hmem hloops
    refine hloops.2.exists_unlisted ?_
    induction h with
    | start => cases hmem
    | @call steps g _ c _ hm ih =>
      rcases List.mem_append.1 hmem with hmem | hmem
      · exact ih hmem
      · cases List.mem_singleton.1 hmem
        exact hm

/-- A root moves below the node that another one has absorbed. -/
theorem Logged.grounded_iff_absorbed :
    ∃ (f g : Forest) (steps : List (Forest × Call)), f.Fresh ∧
      Logged Call.Outside Call.recorded f steps g ∧ g.parent 1 = some 2 ∧ g.parent 2 = some 0 ∧
      g.Grounded ∧ Raises g .error 1 (g.raise 1 .error) := by
  have hroots : ((empty.addRoot "Build").2.addRoot "Docs").2.Fresh :=
    (fresh_empty.addRoot "Build").addRoot "Docs"
  have habsorb : Logged Call.Outside Call.recorded ((empty.addRoot "Build").2.addRoot "Docs").2 _ _ :=
    (Logged.start.call (c := .addChild 0 "src") (by decide) trivial).call
      (c := .absorbOnlyChild 0 "/") (by decide) trivial
  have hmove := habsorb.call (c := .move 1 2) (by decide) fun h => by
    obtain h | ⟨k, hk, -⟩ := h.cases_head
    · cases h
    · exact absurd hk List.not_mem_nil
  obtain ⟨hiff, -, hraises⟩ := hmove.grounded_iff hroots
  have hgrounded := (hiff.2 ?_).1
  · exact ⟨_, _, _, hroots, hmove, by decide +kernel, by decide +kernel, hgrounded,
      hraises hgrounded 1 (by decide) .error⟩
  · simp only [Call.recorded, List.forall_mem_append, List.forall_mem_singleton]
    refine ⟨⟨⟨fun s hs => absurd hs List.not_mem_nil, id⟩, id⟩, fun hloops => ?_⟩
    rcases (ascends_iff_of_parent_eq rfl).1 hloops.2 with h | h
    · cases h
    · obtain ⟨p, hp, -⟩ := Relation.TransGen.head'_iff.1 h
      cases hp

/-- A root absorbs its only child and moves below it. Its way up goes round in a circle then, and
raising it comes to no end. -/
theorem not_grounded_of_outside :
    ∃ f g : Forest, f.Fresh ∧ Run Call.Outside f g ∧ ¬g.Grounded ∧
      ∀ k, ¬Raises g .error 0 k := by
  have hroot : (empty.addRoot "Build").2.Fresh := fresh_empty.addRoot "Build"
  have habsorb : Run Call.Outside (empty.addRoot "Build").2 _ :=
    (Run.call .refl (c := .addChild 0 "src") (by decide) trivial).call
      (c := .absorbOnlyChild 0 "/") (by decide) trivial
  have hmove := habsorb.call (c := .move 0 1) (by decide) fun h => by
    obtain h | ⟨k, hk, -⟩ := h.cases_head
    · cases h
    · exact absurd hk List.not_mem_nil
  refine ⟨_, _, hroot, hmove, fun hg => hg.acyclic 0 ?_, fun k =>
    not_raises_of_forall (s := {0, 1}) ?_ (.inl rfl)⟩
  · exact (ascends_iff_of_parent_eq rfl).2 (.inr (.single rfl))
  · rintro j (rfl | rfl)
    · exact ⟨1, .inr rfl, rfl, rfl⟩
    · exact ⟨0, .inl rfl, rfl, rfl⟩

end ReportTree.Forest
