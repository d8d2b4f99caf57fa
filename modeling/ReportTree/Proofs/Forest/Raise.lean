import Mathlib.Data.Finset.Card
import ReportTree.Proofs.Forest.Coherence

/-!
# Raising a node

Raising a node gives its new level to the node and to its ancestors below the first one that is
severe enough.

* `Climbs`: the nodes that are given the level.
* `level_raise_of_climbs`, `level_raise_of_not_climbs`: what every node shows afterwards.
* `level_raise_self`, `level_raise_of_atLeast`: what holds whether or not the forest is coherent.
-/

namespace ReportTree.Forest

/-- The level `l` climbs from `i` to the node, one parent after the other, each of them less severe
than `l`. -/
inductive Climbs (f : Forest) (l : Level) (i : NodeId) : NodeId → Prop
  | self : Climbs f l i i
  | up {j p : NodeId} (hj : Climbs f l i j) (hp : f.parent j = some p)
      (hl : l.higher (f.level p) = true) : Climbs f l i p

/-- The nodes that are less severe than `l`. -/
def below (f : Forest) (l : Level) : Finset NodeId :=
  (Finset.range f.size).filter fun j => l.higher (f.level j) = true

section

variable {f : Forest} {l : Level} {i j p : NodeId}

theorem mem_below : j ∈ f.below l ↔ j < f.size ∧ l.higher (f.level j) = true := by
  rw [below, Finset.mem_filter, Finset.mem_range]

/-- A node that shows `l` is no longer below it; all others stay. -/
theorem below_showLevel (hi : i < f.size) : (f.showLevel i l).below l = (f.below l).erase i := by
  ext j
  rw [mem_below, size_showLevel, level_showLevel, Finset.mem_erase, mem_below]
  by_cases hij : i = j
  · subst hij
    rw [if_pos ⟨rfl, hi⟩, Level.higher_self]
    simp
  · rw [if_neg fun h => hij h.1]
    exact ⟨fun h => ⟨Ne.symm hij, h⟩, And.right⟩

/-- A node that shows `l` is no place to climb to. -/
theorem higher_level_showLevel_iff (hi : i < f.size) :
    l.higher ((f.showLevel i l).level j) = true ↔ i ≠ j ∧ l.higher (f.level j) = true := by
  rw [level_showLevel]
  by_cases hij : i = j
  · rw [if_pos ⟨hij, hi⟩, Level.higher_self]
    simp [hij]
  · rw [if_neg fun h => hij h.1]
    exact ⟨fun h => ⟨hij, h⟩, And.right⟩

/-- Where the way up goes on to the parent, it goes on as if it started there. -/
theorem climbs_iff_of_parent (hi : i < f.size) (hp : f.parent i = some p)
    (hl : l.higher ((f.showLevel i l).level p) = true) :
    Climbs f l i j ↔ i = j ∨ Climbs (f.showLevel i l) l p j := by
  constructor
  · intro h
    induction h with
    | self => exact .inl rfl
    | @up j q _ hq hlq ih =>
      by_cases hiq : i = q
      · exact .inl hiq
      · refine .inr ?_
        rcases ih with rfl | ih
        · rw [hp] at hq
          cases hq
          exact .self
        · exact ih.up (parent_modifyLabel.trans hq) ((higher_level_showLevel_iff hi).2 ⟨hiq, hlq⟩)
  · rintro (rfl | h)
    · exact .self
    · induction h with
      | self => exact Climbs.self.up hp ((higher_level_showLevel_iff hi).1 hl).2
      | up _ hq hlq ih =>
        exact ih.up (parent_modifyLabel.symm.trans hq) ((higher_level_showLevel_iff hi).1 hlq).2

/-- Where the way up does not go on to the parent, it ends. -/
theorem climbs_iff_of_stop (hi : i < f.size)
    (hstop : ∀ p, f.parent i = some p → l.higher ((f.showLevel i l).level p) ≠ true) :
    Climbs f l i j ↔ i = j := by
  constructor
  · intro h
    induction h with
    | self => rfl
    | @up j q _ hq hlq ih =>
      subst ih
      by_contra hiq
      exact hstop q hq ((higher_level_showLevel_iff hi).2 ⟨hiq, hlq⟩)
  · rintro rfl
    exact .self

/-- A level climbs on from the parent, if that is less severe. -/
theorem climbs_iff_head : Climbs f l i j ↔
    i = j ∨ ∃ p, f.parent i = some p ∧ l.higher (f.level p) = true ∧ Climbs f l p j := by
  constructor
  · intro h
    induction h with
    | self => exact .inl rfl
    | @up j q _ hq hl ih =>
      right
      rcases ih with rfl | ⟨p, hp, hlp, h⟩
      · exact ⟨q, hq, hl, .self⟩
      · exact ⟨p, hp, hlp, h.up hq hl⟩
  · rintro (rfl | ⟨p, hp, hl, h⟩)
    · exact .self
    · induction h with
      | self => exact Climbs.self.up hp hl
      | up _ hq hlq ih => exact ih.up hq hlq

/-- There are steps enough as long as there are more of them than nodes to climb to: each step
takes one node from those. -/
theorem level_raiseFrom {steps : Nat} (hf : ∀ {j p}, f.parent j = some p → p < f.size)
    (hi : i < f.size) (hsteps : ((f.below l).erase i).card < steps) (j : NodeId) :
    (Climbs f l i j → (raiseFrom l steps i f).level j = l) ∧
      (¬Climbs f l i j → (raiseFrom l steps i f).level j = f.level j) := by
  induction steps generalizing f i with
  | zero => exact absurd hsteps (Nat.not_lt_zero _)
  | succ steps ih =>
    have hself : i = j → (f.showLevel i l).level j = l := fun h => by
      rw [level_showLevel, if_pos ⟨h, hi⟩]
    have hother : i ≠ j → (f.showLevel i l).level j = f.level j := fun h => by
      rw [level_showLevel, if_neg fun hij => h hij.1]
    have hparent : (f.showLevel i l).parent i = f.parent i := parent_modifyLabel
    simp only [raiseFrom, hparent]
    split
    · next hp =>
      have hstop := climbs_iff_of_stop (j := j) (l := l) hi fun p h => by rw [hp] at h; cases h
      rw [hstop]
      exact ⟨hself, hother⟩
    · next p hp =>
      split
      · next hl =>
        have hlt : p < f.size := hf hp
        have hmem : p ∈ (f.below l).erase i := by
          rw [← below_showLevel hi, mem_below, size_showLevel]
          exact ⟨hlt, hl⟩
        have hcard : (((f.showLevel i l).below l).erase p).card < steps := by
          rw [below_showLevel hi]
          have := Finset.card_erase_lt_of_mem hmem
          omega
        have hthere {a b : NodeId} (h : (f.showLevel i l).parent a = some b) :
            b < (f.showLevel i l).size := by
          rw [size_showLevel]
          exact hf (parent_modifyLabel.symm.trans h)
        obtain ⟨hyes, hno⟩ := ih hthere ((size_showLevel ..).symm ▸ hlt) hcard
        rw [climbs_iff_of_parent hi hp hl]
        constructor
        · intro h
          by_cases hc : Climbs (f.showLevel i l) l p j
          · exact hyes hc
          · exact (hno hc).trans (hself (h.resolve_right hc))
        · intro h
          rw [not_or] at h
          exact (hno h.2).trans (hother h.1)
      · next hl =>
        have hstop := climbs_iff_of_stop (j := j) (l := l) hi fun q h => by
          rw [hp] at h
          cases h
          exact hl
        rw [hstop]
        exact ⟨hself, hother⟩

theorem card_below_erase_lt (hi : i < f.size) : ((f.below l).erase i).card < f.size := by
  have hsub : (f.below l).erase i ⊆ (Finset.range f.size).erase i :=
    Finset.erase_subset_erase i (Finset.filter_subset ..)
  have hcard := Finset.card_le_card hsub
  have hlt := Finset.card_erase_lt_of_mem (Finset.mem_range.2 hi)
  rw [Finset.card_range] at hlt
  omega

/-- A node to which the level climbs shows it. -/
theorem level_raise_of_climbs (hf : f.Coherent) (hi : i < f.size) (h : Climbs f l i j) :
    (f.raise i l).level j = l :=
  (level_raiseFrom hf.parent_lt hi (card_below_erase_lt hi) j).1 h

/-- Every other node shows what it did. -/
theorem level_raise_of_not_climbs (hf : f.Coherent) (hi : i < f.size) (h : ¬Climbs f l i j) :
    (f.raise i l).level j = f.level j :=
  (level_raiseFrom hf.parent_lt hi (card_below_erase_lt hi) j).2 h

/-- A node that is severe enough already, and is not the one that is raised, stays as it is. -/
theorem level_raiseFrom_of_atLeast {steps : Nat} (hij : i ≠ j)
    (hl : (f.level j).atLeast l = true) : (raiseFrom l steps i f).level j = f.level j := by
  induction steps generalizing i f with
  | zero => rfl
  | succ steps ih =>
    have hshow : (f.showLevel i l).level j = f.level j := by
      rw [level_showLevel, if_neg fun h => hij h.1]
    simp only [raiseFrom]
    split
    · exact hshow
    · next p _ =>
      split
      · next hup =>
        have hpj : p ≠ j := by
          rintro rfl
          rw [hshow, Level.higher_iff] at hup
          exact Nat.not_le_of_lt hup (Level.atLeast_iff.1 hl)
        rw [ih hpj (hshow ▸ hl), hshow]
      · exact hshow

theorem level_raise_of_atLeast (hij : i ≠ j) (hl : (f.level j).atLeast l = true) :
    (f.raise i l).level j = f.level j :=
  level_raiseFrom_of_atLeast hij hl

/-- The raised node shows the level: the way up does not come back to it. -/
theorem level_raise_self (hi : i < f.size) : (f.raise i l).level i = l := by
  have hself : (f.showLevel i l).level i = l := by rw [level_showLevel, if_pos ⟨rfl, hi⟩]
  obtain ⟨steps, hsteps⟩ := Nat.exists_eq_succ_of_ne_zero (Nat.ne_zero_of_lt hi)
  rw [raise, hsteps]
  simp only [raiseFrom]
  split
  · exact hself
  · next p _ =>
    split
    · next hup =>
      have hpi : p ≠ i := by
        rintro rfl
        rw [hself, Level.higher_self] at hup
        cases hup
      have hl : ((f.showLevel i l).level i).atLeast l = true := by
        rw [hself]
        exact Level.atLeast_refl l
      rw [level_raiseFrom_of_atLeast hpi hl, hself]
    · exact hself

/-- The level `none` changes nothing at a node that has it. -/
theorem label_raise_none (hi : i < f.size) (hl : f.level i = .none) :
    (f.raise i .none).label j = f.label j := by
  have hlevel : (f.raise i .none).level j = f.level j := by
    by_cases hij : i = j
    · rw [← hij, level_raise_self hi, hl]
    · exact level_raise_of_atLeast hij (Level.atLeast_none _)
  rw [label_raise, hlevel, level]

theorem raise_none (hi : i < f.size) (hl : f.level i = .none) : f.raise i .none = f :=
  eq_of_reads (size_raise ..) (fun _ => label_raise_none hi hl) (fun _ => parent_raise)
    fun _ => children_raise

/-- Where the level climbs to, it is at least as severe as what was shown there. -/
theorem Climbs.atLeast (hl : l.atLeast (f.level i) = true) (h : Climbs f l i j) :
    l.atLeast (f.level j) = true := by
  cases h with
  | self => exact hl
  | up _ _ hup => exact Level.atLeast_of_higher hup

end

end ReportTree.Forest
