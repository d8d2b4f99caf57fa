import ReportTree.Proofs.Forest.Dominance
import ReportTree.Proofs.Forest.Row

/-!
# Exact levels

The level of a node is exact if it is the most severe one that a node in its tree has by itself. So
it is as long as nodes are made without a level and raised afterwards, in a forest in which every
node is listed by the parent that it names.

* `level_raise_atLeast_iff`: which nodes a raise makes at least as severe as a level.
* `Exact.raise`, `Exact.addBelow`: levels stay exact.
-/

namespace ReportTree.Forest

/-- What names a parent is listed by it. -/
def Listed (f : Forest) : Prop := ∀ i p, f.parent i = some p → i ∈ f.children p

/-- Every node shows the most severe level that a node in its tree has by itself, where `own` tells
the levels that nodes have by themselves. -/
def Exact (f : Forest) (own : NodeId → Level) : Prop :=
  ∀ i l, (f.level i).atLeast l = true ↔ ∃ j, f.Within i j ∧ (own j).atLeast l = true

variable {f g : Forest} {own : NodeId → Level} {i j c : NodeId} {l m : Level}

theorem Listed.congr (hf : f.Listed) (hparent : ∀ j, g.parent j = f.parent j)
    (hchildren : ∀ j, g.children j = f.children j) : g.Listed := by
  intro i p h
  rw [hchildren]
  exact hf i p ((hparent i).symm.trans h)

theorem Listed.addBelow (hf : f.Listed) (hi : i < f.size) {x : Label} :
    (f.addBelow i x).2.Listed := by
  intro j p h
  rw [parent_addBelow] at h
  rw [children_addBelow hi]
  split at h
  · next hj =>
    cases h
    rw [if_pos rfl, hj]
    exact List.mem_append_right _ (List.mem_singleton_self _)
  · split
    · exact List.mem_append_left _ (hf j p h)
    · exact hf j p h

/-- Below the old nodes there is the new one, and what there was. -/
theorem within_addBelow_iff (hi : i < f.size) {x : Label} {a : NodeId}
    (hj : j ≠ f.size) : (f.addBelow i x).2.Within a j ↔ f.Within a j := by
  constructor
  · intro h
    induction h with
    | refl => exact .refl
    | @tail b j _ hb ih =>
      have hold : j ∈ f.children b := by
        rw [children_addBelow hi] at hb
        split at hb
        · exact (List.mem_append.1 hb).resolve_right fun h => hj (List.mem_singleton.1 h)
        · exact hb
      exact (ih (Nat.ne_of_lt (lt_size_of_mem_children hold))).tail hold
  · refine fun h => h.mono fun a b hb => ?_
    rw [children_addBelow hi]
    split
    · exact List.mem_append_left _ hb
    · exact hb

/-! ## Raising -/

theorem Climbs.within (hf : f.Listed) (h : Climbs f l i j) : f.Within j i := by
  induction h with
  | self => exact .refl
  | up _ hp _ ih => exact .head (hf _ _ hp) ih

/-- A node above `i` is climbed to, or it is severe enough, since some node below it was. -/
theorem climbs_or_atLeast_of_within (hc : f.Coherent) (hf : f.Dominated) (h : f.Within j i) :
    Climbs f l i j ∨ (f.level j).atLeast l = true := by
  induction h using Relation.ReflTransGen.head_induction_on with
  | refl => exact .inl .self
  | @head j c hcj _ ih =>
    rcases ih with hclimbs | hlevel
    · by_cases hup : l.higher (f.level j) = true
      · exact .inl (hclimbs.up (hc.parent_eq hcj) hup)
      · exact .inr (Level.atLeast_of_not_higher hup)
    · exact .inr (Level.atLeast_trans (hf j c hcj) hlevel)

/-- A raise makes nodes severe enough that were so before, or that the raised node is in the tree
of. -/
theorem level_raise_atLeast_iff (hc : f.Coherent) (hlisted : f.Listed) (hf : f.Dominated)
    (hi : i < f.size) (hl : l.atLeast (f.level i) = true) :
    ((f.raise i l).level j).atLeast m = true ↔
      (f.level j).atLeast m = true ∨ f.Within j i ∧ l.atLeast m = true := by
  by_cases hclimbs : Climbs f l i j
  · rw [level_raise_of_climbs hc hi hclimbs]
    constructor
    · exact fun h => .inr ⟨hclimbs.within hlisted, h⟩
    · rintro (h | h)
      · exact Level.atLeast_trans (hclimbs.atLeast hl) h
      · exact h.2
  · rw [level_raise_of_not_climbs hc hi hclimbs]
    constructor
    · exact .inl
    · rintro (h | h)
      · exact h
      · have hlevel := (climbs_or_atLeast_of_within hc hf h.1).resolve_left hclimbs
        exact Level.atLeast_trans hlevel h.2

/-! ## Exactness -/

theorem Exact.congr (h : f.Exact own) (hlevel : ∀ j, g.level j = f.level j)
    (hchildren : ∀ j, g.children j = f.children j) : g.Exact own := by
  intro i l
  rw [hlevel, h i l]
  simp only [within_congr hchildren]

/-- A node shows at least the level that it has by itself. -/
theorem Exact.atLeast_own (h : f.Exact own) (i : NodeId) : (f.level i).atLeast (own i) = true :=
  (h i _).2 ⟨i, .refl, Level.atLeast_refl _⟩

theorem Exact.dominated (h : f.Exact own) : f.Dominated := by
  intro i c hc
  obtain ⟨j, hj, hown⟩ := (h c _).1 (Level.atLeast_refl _)
  exact (h i _).2 ⟨j, .head hc hj, hown⟩

/-- Where nothing is below a node, each shows the level that it has by itself. -/
theorem exact_level_of_children_eq_nil (h : ∀ i, f.children i = []) : f.Exact f.level := by
  intro i l
  constructor
  · exact fun hl => ⟨i, .refl, hl⟩
  · rintro ⟨j, hj, hl⟩
    rcases hj.cases_head with rfl | ⟨c, hc, -⟩
    · exact hl
    · rw [h] at hc
      cases hc

/-- A node that is raised has the level by itself. -/
theorem Exact.raise (h : f.Exact own) (hc : f.Coherent) (hlisted : f.Listed) (hi : i < f.size)
    (hl : l.atLeast (f.level i) = true) : (f.raise i l).Exact (Function.update own i l) := by
  intro j m
  have hown : l.atLeast (own i) = true := Level.atLeast_trans hl (h.atLeast_own i)
  rw [level_raise_atLeast_iff hc hlisted h.dominated hi hl, h j m]
  simp only [within_congr fun _ => children_raise]
  constructor
  · rintro (⟨k, hk, hkm⟩ | hself)
    · refine ⟨k, hk, ?_⟩
      by_cases hki : k = i
      · subst hki
        rw [Function.update_self]
        exact Level.atLeast_trans hown hkm
      · rwa [Function.update_of_ne hki]
    · exact ⟨i, hself.1, by rw [Function.update_self]; exact hself.2⟩
  · rintro ⟨k, hk, hkm⟩
    by_cases hki : k = i
    · subst hki
      rw [Function.update_self] at hkm
      exact .inr ⟨hk, hkm⟩
    · rw [Function.update_of_ne hki] at hkm
      exact .inl ⟨k, hk, hkm⟩

/-- A node may as well have by itself the level that it shows. -/
theorem Exact.keep (h : f.Exact own) (i : NodeId) :
    f.Exact (Function.update own i (f.level i)) := by
  intro j m
  rw [h j m]
  constructor
  · rintro ⟨k, hk, hkm⟩
    refine ⟨k, hk, ?_⟩
    by_cases hki : k = i
    · subst hki
      rw [Function.update_self]
      exact Level.atLeast_trans (h.atLeast_own k) hkm
    · rwa [Function.update_of_ne hki]
  · rintro ⟨k, hk, hkm⟩
    by_cases hki : k = i
    · subst hki
      rw [Function.update_self, h k m] at hkm
      obtain ⟨a, ha, ham⟩ := hkm
      exact ⟨a, hk.trans ha, ham⟩
    · rw [Function.update_of_ne hki] at hkm
      exact ⟨k, hk, hkm⟩

/-- What is not there has no level by itself. -/
theorem Exact.own_eq_none (h : f.Exact own) (hi : f.size ≤ i) : own i = .none := by
  have hlevel : f.level i = .none := by
    rw [level, label, get_of_size_le hi]
    rfl
  have hown := h.atLeast_own i
  rwa [hlevel, Level.none_atLeast_iff] at hown

/-- A node that is made without a level has none by itself. -/
theorem Exact.addBelow (h : f.Exact own) (hi : i < f.size) {x : Label}
    (hx : x.level = .none) : (f.addBelow i x).2.Exact own := by
  intro a l
  have hlevel : (f.addBelow i x).2.level a = f.level a := by
    rw [level_addBelow]
    split
    · next ha => rw [hx, ha, level, label, get_of_size_le (Nat.le_refl _)]; rfl
    · rfl
  rw [hlevel, h a l]
  have hnew : own f.size = .none := h.own_eq_none (Nat.le_refl _)
  constructor
  · rintro ⟨j, hj, hown⟩
    by_cases hjn : j = f.size
    · rw [hjn, hnew, Level.none_atLeast_iff] at hown
      exact ⟨a, .refl, hown ▸ Level.atLeast_none _⟩
    · exact ⟨j, (within_addBelow_iff hi hjn).2 hj, hown⟩
  · rintro ⟨j, hj, hown⟩
    by_cases hjn : j = f.size
    · rw [hjn, hnew, Level.none_atLeast_iff] at hown
      exact ⟨a, .refl, hown ▸ Level.atLeast_none _⟩
    · exact ⟨j, (within_addBelow_iff hi hjn).1 hj, hown⟩

end ReportTree.Forest
