import ReportTree.Proofs.Forest.Exact

/-!
# Demanded levels

In a run that makes nodes and sets levels, and neither merges nor moves anything, the level of a node
is the most severe one that was demanded for a node of its tree. A call that was refused demands
nothing.

* `Growth.exact`: small changes keep levels exact for what was demanded.
* `growth_perform`: a call grows the forest, by what it demands.
* `Logged.level_isMostSevere`: the levels after a run.
-/

namespace ReportTree

/-- The level is the most severe one of none and those with `p`. -/
def Level.IsMostSevere (l : Level) (p : Level → Prop) : Prop :=
  (l = .none ∨ p l) ∧ ∀ m, p m → l.atLeast m = true

theorem Level.IsMostSevere.unique {l m : Level} {p : Level → Prop} (hl : l.IsMostSevere p)
    (hm : m.IsMostSevere p) : l = m := by
  have hle {a b : Level} (ha : a.IsMostSevere p) (hb : b.IsMostSevere p) : a.rank ≤ b.rank := by
    rcases hb.1 with rfl | hb
    · exact atLeast_iff.1 (atLeast_none a)
    · exact atLeast_iff.1 (ha.2 b hb)
  exact rank_inj.1 (Nat.le_antisymm (hle hl hm) (hle hm hl))

namespace Forest

/-- The most severe level that is demanded for a node. -/
def demanded (ds : List Demand) (i : NodeId) : Level :=
  ds.foldl (fun l d => if d.node = i then l.highest d.level else l) .none

variable {f g : Forest} {ds before : List Demand} {i : NodeId} {l : Level}

theorem demanded_concat (ds : List Demand) (d : Demand) :
    demanded (ds ++ [d]) =
      Function.update (demanded ds) d.node ((demanded ds d.node).highest d.level) := by
  funext i
  rw [demanded, List.foldl_append, List.foldl_cons, List.foldl_nil]
  by_cases hi : d.node = i
  · subst hi
    rw [if_pos rfl, Function.update_self]
    rfl
  · rw [if_neg hi, Function.update_of_ne (Ne.symm hi)]
    rfl

/-- The last demand counts alone if it is as severe as all before it. -/
theorem demanded_concat_of_atLeast (h : l.atLeast (demanded ds i) = true) :
    demanded (ds ++ [⟨i, l⟩]) = Function.update (demanded ds) i l := by
  rw [demanded_concat, Level.highest, if_neg]
  rw [Level.higher_iff, Nat.not_lt]
  exact Level.atLeast_iff.1 h

theorem demanded_atLeast_iff :
    (demanded ds i).atLeast l = true ↔
      l = .none ∨ ∃ m, ⟨i, m⟩ ∈ ds ∧ m.atLeast l = true := by
  induction ds using List.reverseRecOn with
  | nil => simp [demanded, Level.none_atLeast_iff]
  | append_singleton ds d ih =>
    obtain ⟨j, m⟩ := d
    rw [demanded_concat]
    by_cases hi : i = j
    · subst hi
      rw [Function.update_self, Level.highest_atLeast_iff, ih]
      simp only [List.mem_append, List.mem_singleton, Demand.mk.injEq, true_and, or_and_right,
        exists_or, exists_eq_left, or_assoc]
    · rw [Function.update_of_ne hi, ih]
      simp [hi]

/-! ## Small changes -/

/-- Small changes keep levels exact, where every node has by itself what was demanded for it. -/
theorem Growth.exact (h : Growth f ds g) (hc : f.Coherent) (hl : f.Listed)
    (he : f.Exact (demanded before)) : g.Listed ∧ g.Exact (demanded (before ++ ds)) := by
  induction h with
  | refl =>
    rw [List.append_nil]
    exact ⟨hl, he⟩
  | relabel _ i hx ih =>
    exact ⟨ih.1.congr (fun _ => parent_modifyLabel) fun _ => children_modifyLabel,
      ih.2.congr (fun _ => level_modifyLabel hx) fun _ => children_modifyLabel⟩
  | grow _ hi hx ih => exact ⟨ih.1.addBelow hi, ih.2.addBelow hi hx⟩
  | raise h hi hlevel ih =>
    rw [← List.append_assoc,
      demanded_concat_of_atLeast (Level.atLeast_trans hlevel (ih.2.atLeast_own _))]
    exact ⟨ih.1.congr (fun _ => parent_raise) fun _ => children_raise,
      ih.2.raise (h.coherent hc) ih.1 hi hlevel⟩
  | keep _ i ih =>
    rw [← List.append_assoc, demanded_concat_of_atLeast (ih.2.atLeast_own i)]
    exact ⟨ih.1, ih.2.keep i⟩

/-- Exact levels, in the words of the demands. -/
theorem Exact.isMostSevere (h : f.Exact (demanded ds)) (i : NodeId) :
    (f.level i).IsMostSevere fun l => ∃ j, f.Within i j ∧ ⟨j, l⟩ ∈ ds := by
  have hiff (m : Level) : (f.level i).atLeast m = true ↔
      m = .none ∨ ∃ j, f.Within i j ∧ ∃ l, ⟨j, l⟩ ∈ ds ∧ l.atLeast m = true := by
    rw [h i m]
    constructor
    · rintro ⟨j, hj, hm⟩
      exact (demanded_atLeast_iff.1 hm).imp_right fun hl => ⟨j, hj, hl⟩
    · rintro (hm | ⟨j, hj, hl⟩)
      · exact ⟨i, .refl, demanded_atLeast_iff.2 (.inl hm)⟩
      · exact ⟨j, hj, demanded_atLeast_iff.2 (.inr hl)⟩
  have hupper {j : NodeId} {l : Level} (hj : f.Within i j) (hl : ⟨j, l⟩ ∈ ds) :
      (f.level i).atLeast l = true :=
    (hiff l).2 (.inr ⟨j, hj, l, hl, Level.atLeast_refl l⟩)
  refine ⟨?_, fun m ⟨j, hj, hm⟩ => hupper hj hm⟩
  -- The level is as severe as itself, so that a demand is as severe as it.
  rcases (hiff _).1 (Level.atLeast_refl (f.level i)) with hnone | ⟨j, hj, l, hl, hle⟩
  · exact .inl hnone
  · have heq : f.level i = l := Level.rank_inj.1
      (Nat.le_antisymm (Level.atLeast_iff.1 (hupper hj hl)) (Level.atLeast_iff.1 hle))
    exact .inr ⟨j, hj, heq ▸ hl⟩

/-! ## Runs -/

/-- A call makes nodes or sets a level. -/
def Call.Grows (_ : Forest) : Call → Prop
  | .addChild .. | .setLevel .. | .fileNode .. | .addException .. | .addCleanedException .. => True
  | .absorbOnlyChild .. | .mergeFolders .. | .mergeFoldersBelow .. | .move .. => False

/-- What a call demands: the levels of markers, an error for every failure, the level that a caller
asks for unless this is refused. -/
def Call.demands (f : Forest) : Call → List Demand
  | .addChild i markup => markupDemands i f markup
  | .setLevel i l =>
    match f.setLevel i l with
    | .ok _ => l.toList.map (⟨i, ·⟩)
    | .error _ => []
  | .fileNode i path folder _ => pathDemands folder i f (segments path)
  | .addException i g e => f.accountDemands g i (g.account id e)
  | .addCleanedException i g e => f.accountDemands g i (g.account g.clean e)
  | .absorbOnlyChild .. | .mergeFolders .. | .mergeFoldersBelow .. | .move .. => []

theorem growth_perform (hf : f.Coherent) {c : Call} (hc : ∀ i ∈ c.nodes, i < f.size)
    (hgrows : c.Grows f) : Growth f (c.demands f) (f.perform c) := by
  cases c with
  | addChild i markup => exact (growsTo_addChild hf (hc i (.head _)) markup).growth
  | setLevel i l =>
    rw [Call.demands, perform]
    cases h : f.setLevel i l with
    | ok g => exact growth_setLevel (hc i (.head _)) h
    | error e => exact .refl
  | fileNode i path folder file =>
    exact (growsTo_fileNode hf (hc i (.head _)) path folder file).growth
  | addException i g e => exact (growsTo_addAccount hf (hc i (.head _)) g _).growth
  | addCleanedException i g e => exact (growsTo_addAccount hf (hc i (.head _)) g _).growth
  | absorbOnlyChild | mergeFolders | mergeFoldersBelow | move => cases hgrows

theorem Fresh.exact (hf : f.Fresh) : f.Listed ∧ f.Exact (demanded []) := by
  refine ⟨fun i p h => ?_, ?_⟩
  · rw [hf.parent_eq] at h
    cases h
  · have hlevel : f.level = demanded [] := funext hf.level_eq
    rw [← hlevel]
    exact exact_level_of_children_eq_nil hf.children_eq

theorem Logged.exact (hf : f.Fresh) (h : Logged Call.Grows Call.demands f ds g) :
    g.Listed ∧ g.Exact (demanded ds) := by
  induction h with
  | start => exact hf.exact
  | call h hc hm ih =>
    have hcoherent := h.run.coherent hf.coherent
    exact (growth_perform hcoherent hc hm).exact hcoherent ih.1 ih.2

/-- After a run every node has the most severe level of none and those that were demanded for it and
for what is below it. So the order of the demands does not count, if the forest lists the same. -/
theorem Logged.level_isMostSevere (hf : f.Fresh) (h : Logged Call.Grows Call.demands f ds g) :
    (∀ i, (g.level i).IsMostSevere fun l => ∃ j, g.Within i j ∧ ⟨j, l⟩ ∈ ds) ∧
    ∀ {f' g' : Forest} {ds' : List Demand}, f'.Fresh →
      Logged Call.Grows Call.demands f' ds' g' → ds.Perm ds' →
      (∀ i, g'.children i = g.children i) → ∀ i, g'.level i = g.level i := by
  refine ⟨(h.exact hf).2.isMostSevere, fun hf' h' hperm hchildren i => ?_⟩
  have hlevel := (h'.exact hf').2.isMostSevere i
  simp only [within_congr hchildren, ← hperm.mem_iff] at hlevel
  exact hlevel.unique ((h.exact hf).2.isMostSevere i)

/-- A warning, an error and a fatal level are demanded in two orders. The level that is asked for
last in the first run would be a lower one and is refused. -/
theorem Logged.level_isMostSevere_swapped :
    ∃ (f g g' : Forest) (ds ds' : List Demand), f.Fresh ∧
      Logged Call.Grows Call.demands f ds g ∧ Logged Call.Grows Call.demands f ds' g' ∧
      ds.Perm ds' ∧ ds ≠ ds' ∧ (∀ i, g'.children i = g.children i) ∧
      (∀ i, (g.level i).IsMostSevere fun l => ∃ j, g.Within i j ∧ ⟨j, l⟩ ∈ ds) ∧
      ∀ i, g'.level i = g.level i := by
  have hroot : (empty.addRoot "Build").2.Fresh := fresh_empty.addRoot "Build"
  have hadd : Logged Call.Grows Call.demands (empty.addRoot "Build").2 _ _ :=
    Logged.start.call (c := .addChild 0 "! Lint") (by decide) trivial
  have hfatal := (hadd.call (c := .setLevel 0 (some .fatal)) (by decide) trivial).call
    (c := .setLevel 1 (some .error)) (by decide) trivial
  have hrefused := hfatal.call (c := .setLevel 0 (some .info)) (by decide) trivial
  have herror := (hadd.call (c := .setLevel 1 (some .error)) (by decide) trivial).call
    (c := .setLevel 0 (some .fatal)) (by decide) trivial
  obtain ⟨hexact, horder⟩ := hrefused.level_isMostSevere hroot
  refine ⟨_, _, _, _, _, hroot, hrefused, herror, ?hperm, ?hne, ?hchildren, hexact,
    horder hroot herror ?hperm ?hchildren⟩
  case hperm => decide +kernel
  case hne => decide +kernel
  case hchildren =>
    intro i
    by_cases hi : i < 2
    · decide +revert +kernel
    · rw [children_of_size_le (Nat.le_of_not_lt hi), children_of_size_le (Nat.le_of_not_lt hi)]

end Forest

end ReportTree
