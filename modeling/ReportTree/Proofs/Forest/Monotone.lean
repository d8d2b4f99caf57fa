import ReportTree.Proofs.Forest.Refusal

/-!
# Levels never fall

No call makes a node less severe, whether or not nodes are as severe as what is below them. A node
that moves takes its level along, so the ancestors that a level later climbs to may be more or less
severe in any pattern.

* `Edit.level_atLeast`, `level_perform_atLeast`: one edit, one call.
* `Run.grounded`: a run keeps a forest grounded if its moves do.
* `Run.level_monotone`: in such a run levels only rise, and nothing is refused but a call that sets
  a level lower than the node has.
-/

namespace ReportTree.Forest

/-- A move leaves an end to every way up. -/
def Call.Keeps (f : Forest) : Call → Prop
  | .move i target => (f.perform (.move i target)).Grounded
  | _ => True

variable {f g : Forest} {c : Call}

/-! ## One edit -/

theorem Edit.level_atLeast (h : Edit f g) (hf : f.Coherent) (j : NodeId) :
    (g.level j).atLeast (f.level j) = true := by
  cases h with
  | relabel i hg =>
    rw [level_modifyLabel hg]
    exact Level.atLeast_refl _
  | @grow i hi x hx =>
    rw [level_addBelow]
    split
    · next hj =>
      -- The new node was not there before, so it had no level.
      rw [hj, level, label, get_of_size_le (Nat.le_refl _)]
      exact Level.atLeast_none _
    · exact Level.atLeast_refl _
  | @raise i hi l hl =>
    by_cases hj : Climbs f l i j
    · rw [level_raise_of_climbs hf hi hj]
      exact hj.atLeast hl
    · rw [level_raise_of_not_climbs hf hi hj]
      exact Level.atLeast_refl _
  | absorb i sep =>
    rcases f.absorbOnlyChild_cases i sep with hsame | ⟨c, hc⟩
    · rw [hsame]
      exact Level.atLeast_refl _
    · rw [(absorbOnlyChild_spec sep hc rfl).2.1]
      exact Level.atLeast_refl _
  | sort i =>
    rw [sortChildren, level_modifyChildren]
    exact Level.atLeast_refl _

theorem Edits.level_atLeast (h : Edits f g) (hf : f.Coherent) (j : NodeId) :
    (g.level j).atLeast (f.level j) = true := by
  induction h with
  | refl => exact Level.atLeast_refl _
  | tail hs h ih => exact Level.atLeast_trans (h.level_atLeast (Edits.coherent hs hf) j) ih

/-! ## One call -/

/-- A move leaves all levels as they are. -/
theorem level_perform_atLeast (hf : f.Coherent) (hc : ∀ i ∈ c.nodes, i < f.size) (j : NodeId) :
    ((f.perform c).level j).atLeast (f.level j) = true := by
  rcases perform_cases hf hc with h | ⟨i, target, rfl, h⟩
  · exact h.level_atLeast hf j
  · have hmoved := moved_of_move_eq_ok (hc i (.head _)) (hc target (.tail _ (.head _))) h
    rw [level, hmoved.label_eq]
    exact Level.atLeast_refl _

theorem Step.grounded (h : Step Call.Keeps f g) (hf : f.Coherent) (hg : f.Grounded) :
    g.Grounded := by
  obtain ⟨c, hc, hkeeps, rfl⟩ := h
  rcases perform_cases hf hc with h | ⟨i, target, rfl, -⟩
  · exact h.grounded hf hg
  · exact hkeeps

/-! ## Refusals -/

theorem setLevel_eq_error_iff {i : NodeId} {l : Option Level} {e : Lowering} :
    f.setLevel i l = .error e ↔ ∃ m, l = some m ∧ (f.level i).higher m = true ∧
      e = ⟨(f.label i).name, f.level i, m⟩ := by
  cases l with
  | none => simp [setLevel]
  | some l =>
    simp only [setLevel, Option.some_inj, exists_eq_left']
    by_cases hl : l = f.level i
    · rw [if_pos hl, hl, Level.higher_self]
      simp
    · rw [if_neg hl]
      by_cases hlow : (f.level i).higher l = true
      · simp [hlow, eq_comm]
      · simp [hlow]

/-- A call is refused if and only if it sets a level that is lower than the node has. -/
theorem attempt_eq_throw_iff (hf : f.Coherent) (hg : f.Grounded) (hc : ∀ i ∈ c.nodes, i < f.size)
    {e : Lowering} : f.attempt c = throw e ↔ ∃ i l, c = .setLevel i (some l) ∧
      (f.level i).higher l = true ∧ e = ⟨(f.label i).name, f.level i, l⟩ := by
  by_cases hset : ∃ i l, c = .setLevel i l
  · obtain ⟨i, l, rfl⟩ := hset
    have hthrow : f.attempt (.setLevel i l) = throw e ↔ f.setLevel i l = .error e := by
      rw [attempt_setLevel hf hg (hc i (.head _))]
      exact ⟨Option.some.inj, congrArg some⟩
    rw [hthrow, setLevel_eq_error_iff]
    simp [and_assoc]
  · rw [attempt_eq_pure hf hg hc fun i l h => hset ⟨i, l, h⟩]
    refine iff_of_false (fun h => by cases h) ?_
    rintro ⟨i, l, rfl, -⟩
    exact hset ⟨i, some l, rfl⟩

/-- A call comes to its forest, or it is refused and changes nothing. -/
theorem attempt_eq_pure_or_throw (hf : f.Coherent) (hg : f.Grounded)
    (hc : ∀ i ∈ c.nodes, i < f.size) :
    f.attempt c = pure (f.perform c) ∨ ∃ e, f.attempt c = throw e ∧ f.perform c = f := by
  by_cases hset : ∃ i l, c = .setLevel i l
  · obtain ⟨i, l, rfl⟩ := hset
    rw [attempt_setLevel hf hg (hc i (.head _)), perform]
    cases f.setLevel i l with
    | ok g => exact .inl rfl
    | error e => exact .inr ⟨e, rfl, rfl⟩
  · exact .inl (attempt_eq_pure hf hg hc fun i l h => hset ⟨i, l, h⟩)

/-! ## Runs -/

theorem Run.grounded (h : Run Call.Keeps f g) (hf : f.Coherent) (hg : f.Grounded) :
    g.Grounded := by
  induction h with
  | refl => exact hg
  | tail hs h ih => exact h.grounded (Run.coherent hs hf) ih

theorem Run.level_atLeast {may : Forest → Call → Prop} (h : Run may f g) (hf : f.Coherent)
    (j : NodeId) : (g.level j).atLeast (f.level j) = true := by
  induction h with
  | refl => exact Level.atLeast_refl _
  | tail hs h ih =>
    obtain ⟨c, hc, -, rfl⟩ := h
    exact Level.atLeast_trans (level_perform_atLeast (Run.coherent hs hf) hc j) ih

/-- In a run from any forest whose ways up end, by any calls after which they end, no node becomes
less severe. The next call does not make one less severe either; every node that it gives a level
may check that this is not lower than its own. It is refused then if and only if it sets the level
of a node that has a more severe one, and nothing changes. -/
theorem Run.level_monotone (hf : f.Coherent) (hg : f.Grounded) (h : Run Call.Keeps f g) :
    (∀ j, (g.level j).atLeast (f.level j) = true) ∧
    ∀ c : Call, (∀ i ∈ c.nodes, i < g.size) →
      (∀ j, ((g.perform c).level j).atLeast (g.level j) = true) ∧
      (g.attempt c = pure (g.perform c) ∨ ∃ e, g.attempt c = throw e ∧ g.perform c = g) ∧
      ∀ e, g.attempt c = throw e ↔ ∃ i l, c = .setLevel i (some l) ∧
        (g.level i).higher l = true ∧ e = ⟨(g.label i).name, g.level i, l⟩ := by
  have hcoherent := h.coherent hf
  have hgrounded := h.grounded hf hg
  exact ⟨h.level_atLeast hf, fun c hc => ⟨level_perform_atLeast hcoherent hc,
    attempt_eq_pure_or_throw hcoherent hgrounded hc,
    fun e => attempt_eq_throw_iff hcoherent hgrounded hc⟩⟩

/-- A node with an error, below a root that has no level, moves below another such root. The child
of the moved node gets an error as well, which no ancestor refuses. -/
theorem Run.level_monotone_moved :
    ∃ f g : Forest, f.Coherent ∧ f.Grounded ∧ ¬f.Dominated ∧ Run Call.Keeps f g ∧
      (∀ j, (g.level j).atLeast (f.level j) = true) ∧ g.parent 2 = some 1 ∧
      g.level 1 = .none ∧ g.level 2 = .error ∧
      g.attempt (.addChild 2 "x Broken") = pure (g.perform (.addChild 2 "x Broken")) ∧
      ∃ e, g.attempt (.setLevel 2 (some .warn)) = throw e := by
  have hroots : ((empty.addRoot "Lint").2.addRoot "Build").2.Fresh :=
    (fresh_empty.addRoot "Lint").addRoot "Build"
  let f := (((empty.addRoot "Lint").2.addRoot "Build").2.addBelow 0
    { name := "src", level := .error }).2
  have howned : f.Owned [] := hroots.owned.addBelow (by decide)
  have hup : ¬f.Ascends 1 2 := fun h => by
    obtain ⟨p, hp, -⟩ := Relation.TransGen.head'_iff.1 h
    cases hp
  obtain ⟨k, hk⟩ : ∃ k, f.move 2 1 = .ok k := ⟨_, rfl⟩
  have hperform : f.perform (.move 2 1) = k := by
    rw [perform, hk]
    rfl
  have hmoved : k.Owned [] := howned.move (by decide) (by decide) (by decide) hup hk
  have hrun : Run Call.Keeps f (f.perform (.move 2 1)) :=
    Run.call .refl (by decide) (by
      rw [Call.Keeps, hperform]
      exact hmoved.acyclic.grounded hmoved.coherent)
  have hgrounded := howned.acyclic.grounded howned.coherent
  obtain ⟨hlevel, hnext⟩ := hrun.level_monotone howned.coherent hgrounded
  obtain ⟨-, hadd, hthrow⟩ := hnext (.addChild 2 "x Broken") (by decide)
  obtain ⟨-, -, hset⟩ := hnext (.setLevel 2 (some .warn)) (by decide)
  refine ⟨f, _, howned.coherent, hgrounded, fun h => ?_, hrun, hlevel, by decide, by decide,
    by decide, hadd.resolve_right ?_, _, (hset _).2 ⟨2, .warn, rfl, by decide, rfl⟩⟩
  · exact absurd (h 0 2 (by decide)) (by decide)
  · rintro ⟨e, he, -⟩
    obtain ⟨i, l, hc, -⟩ := (hthrow e).1 he
    cases hc

end ReportTree.Forest
