import ReportTree.Proofs.Forest.Monotone

/-!
# The effect of setting a level

Setting the level of a node goes up to its parent before the node itself shows the level, and every
node on the way makes the same checks. Where a parent has the level or a more severe one, the way up
ends; what is further up stays as it is, whether or not it is severe enough.

* `Lineage`: the ancestors of a node.
* `Sets`: setting a level as a recursion up the parents, with what has become of the forest when the
  level is refused.
* `Lineage.levelled_raise`: the nodes that show the level afterwards.
* `Raises.sets`: on the way up no ancestor refuses.
* `setLevel_effect`: what setting a level comes to, from every forest whose ways up end.
-/

namespace ReportTree.Forest

/-- The ancestors of a node, its parent first, up to one without a parent. -/
inductive Lineage (f : Forest) : NodeId → List NodeId → Prop
  | root {i : NodeId} (h : f.parent i = none) : Lineage f i []
  | child {i p : NodeId} {above : List NodeId} (hp : f.parent i = some p) (h : Lineage f p above) :
      Lineage f i (p :: above)

/-- Setting the level of the node comes to an end, with an outcome and a forest. Nothing happens
where no level is given, or the one that the node has; a node with a more severe level refuses.
Otherwise a parent that is less severe is set first, and the node shows the level unless that was
refused. -/
inductive Sets (f : Forest) : NodeId → Option Level → Except Lowering Unit → Forest → Prop
  | keep {i : NodeId} {l : Option Level} (hl : l = none ∨ l = some (f.level i)) :
      Sets f i l (.ok ()) f
  | refuse {i : NodeId} {l : Level} (hne : l ≠ f.level i) (hlow : (f.level i).higher l = true) :
      Sets f i (some l) (.error ⟨(f.label i).name, f.level i, l⟩) f
  | stop {i : NodeId} {l : Level} (hne : l ≠ f.level i) (hlow : (f.level i).higher l = false)
      (hstop : ∀ p, f.parent i = some p → l.higher (f.level p) = false) :
      Sets f i (some l) (.ok ()) (f.showLevel i l)
  | up {i p : NodeId} {l : Level} {o : Except Lowering Unit} {g : Forest} (hne : l ≠ f.level i)
      (hlow : (f.level i).higher l = false) (hp : f.parent i = some p)
      (hup : l.higher (f.level p) = true) (h : Sets f p (some l) o g) :
      Sets f i (some l) o (if o.isOk then g.showLevel i l else g)

/-- `g` is `f`, but that the nodes `is` show the level. -/
structure Levelled (f : Forest) (l : Level) (is : List NodeId) (g : Forest) : Prop where
  size_eq : g.size = f.size
  label_eq : ∀ j, g.label j = if j ∈ is then { f.label j with level := l } else f.label j
  parent_eq : ∀ j, g.parent j = f.parent j
  children_eq : ∀ j, g.children j = f.children j

variable {f g h : Forest} {i j : NodeId} {l : Level} {above : List NodeId}

/-! ## Ancestors -/

theorem Grounded.exists_lineage (hg : f.Grounded) (i : NodeId) : ∃ above, f.Lineage i above := by
  obtain ⟨r, hr, hroot⟩ := hg i
  induction hr using Relation.ReflTransGen.head_induction_on with
  | refl => exact ⟨[], .root hroot⟩
  | head hp _ ih =>
    obtain ⟨above, h⟩ := ih
    exact ⟨_, .child hp h⟩

theorem Lineage.unique {above' : List NodeId} (h : f.Lineage i above) (h' : f.Lineage i above') :
    above = above' := by
  induction h generalizing above' with
  | root hroot =>
    cases h' with
    | root => rfl
    | child hp => simp [hroot] at hp
  | child hp _ ih =>
    cases h' with
    | root hroot => simp [hp] at hroot
    | child hp' h' =>
      rw [hp, Option.some.injEq] at hp'
      subst hp'
      rw [ih h']

/-- A level climbs to the ancestors below the first one that is severe enough. -/
theorem Lineage.climbs_iff (h : f.Lineage i above) :
    Climbs f l i j ↔ j ∈ i :: above.takeWhile fun p => l.higher (f.level p) := by
  induction h with
  | @root i hroot =>
    rw [climbs_iff_head, hroot, eq_comm]
    simp
  | @child i p above hp _ ih =>
    rw [climbs_iff_head, hp, List.mem_cons, List.takeWhile_cons, eq_comm]
    cases hup : l.higher (f.level p) with
    | true => simp [ih, hup]
    | false => simp [hup]

/-- Raising a node gives the level to the node and to its ancestors below the first one that is
severe enough, and changes nothing else. -/
theorem Lineage.levelled_raise (h : f.Lineage i above)
    (hf : ∀ {j p}, f.parent j = some p → p < f.size) (hi : i < f.size) :
    f.Levelled l (i :: above.takeWhile fun p => l.higher (f.level p)) (f.raise i l) where
  size_eq := size_raise ..
  label_eq j := by
    obtain ⟨hyes, hno⟩ := level_raiseFrom hf hi (card_below_erase_lt (l := l) hi) j
    rw [h.climbs_iff] at hyes hno
    rw [label_raise]
    split
    · next hj => rw [raise, hyes hj]
    · next hj => rw [raise, hno hj, level]
  parent_eq _ := parent_raise
  children_eq _ := children_raise

/-! ## The recursion -/

/-- The two checks pass where the node is less severe than the level. -/
theorem higher_level_iff :
    l.higher (f.level i) = true ↔ l ≠ f.level i ∧ (f.level i).higher l = false := by
  rw [← Bool.not_eq_true, Level.higher_iff, Level.higher_iff, ne_eq, ← Level.rank_inj]
  omega

/-- Where the node is less severe than the level, no ancestor refuses: the recursion only goes up to
less severe ones. -/
theorem Raises.sets (h : Raises f l i g) (hl : l.higher (f.level i) = true) :
    f.Sets i (some l) (.ok ()) g := by
  induction h with
  | stop hstop =>
    obtain ⟨hne, hlow⟩ := higher_level_iff.1 hl
    exact .stop hne hlow hstop
  | up hp hup _ ih =>
    obtain ⟨hne, hlow⟩ := higher_level_iff.1 hl
    exact .up hne hlow hp hup (ih hup)

/-- The recursion has one end at most. -/
theorem Sets.unique {m : Option Level} {o o' : Except Lowering Unit} (hg : f.Sets i m o g)
    (hh : f.Sets i m o' h) : o' = o ∧ h = g := by
  induction hg generalizing o' h with
  | keep hl =>
    cases hh with
    | keep => exact ⟨rfl, rfl⟩
    | refuse hne | stop hne | up hne => simp [hne] at hl
  | refuse hne hlow =>
    cases hh with
    | keep hl => simp [hne] at hl
    | refuse => exact ⟨rfl, rfl⟩
    | stop _ hlow' | up _ hlow' => simp [hlow] at hlow'
  | stop hne hlow hstop =>
    cases hh with
    | keep hl => simp [hne] at hl
    | refuse _ hlow' => simp [hlow] at hlow'
    | stop => exact ⟨rfl, rfl⟩
    | up _ _ hp hup => simp [hstop _ hp] at hup
  | up hne hlow hp hup _ ih =>
    cases hh with
    | keep hl => simp [hne] at hl
    | refuse _ hlow' => simp [hlow] at hlow'
    | stop _ _ hstop => simp [hstop _ hp] at hup
    | up _ _ hp' _ hh =>
      rw [hp, Option.some.injEq] at hp'
      subst hp'
      obtain ⟨rfl, rfl⟩ := ih hh
      exact ⟨rfl, rfl⟩

theorem Sets.iff {m : Option Level} {o o' : Except Lowering Unit} (hg : f.Sets i m o g) :
    f.Sets i m o' h ↔ o' = o ∧ h = g :=
  ⟨hg.unique, fun ⟨ho, hh⟩ => ho ▸ hh ▸ hg⟩

/-! ## Setting a level -/

theorem setLevel_of_keep {m : Option Level} (hm : m = none ∨ m = some (f.level i)) :
    f.setLevel i m = .ok f := by
  rcases hm with rfl | rfl
  · rfl
  · exact if_pos rfl

theorem setLevel_of_higher (hl : l.higher (f.level i) = true) :
    f.setLevel i (some l) = .ok (f.raise i l) := by
  obtain ⟨hne, hlow⟩ := higher_level_iff.1 hl
  simp [setLevel, hne, hlow]

theorem setLevel_of_lower (hlow : (f.level i).higher l = true) :
    f.setLevel i (some l) = .error ⟨(f.label i).name, f.level i, l⟩ :=
  setLevel_eq_error_iff.2 ⟨l, rfl, hlow, rfl⟩

/-- A node without a level takes any. -/
theorem setLevel_of_none (hi : i < f.size) (hl : f.level i = .none) :
    f.setLevel i (some l) = .ok (f.raise i l) := by
  by_cases hnone : l = .none
  · rw [setLevel_of_keep (.inr (by rw [hl, hnone])), hnone, raise_none hi hl]
  · refine setLevel_of_higher ?_
    rw [hl]
    exact Level.higher_none hnone

/-- Setting the level of a node in any forest whose ways up end. The recursion up the parents has
exactly one end, which is what `setLevel` computes, with the forest as it is then also where the
level is refused. No level and the level of the node change nothing. A less severe level is refused
and changes nothing. A more severe level is shown by the node and by its ancestors below the first
one that is at least as severe, all of them if there is none, and nothing else changes. -/
theorem setLevel_effect (hf : ∀ {j p}, f.parent j = some p → p < f.size) (hg : f.Grounded)
    (hi : i < f.size) : ∃ above, f.Lineage i above ∧ ∀ m : Option Level, ∃ o g,
      (∀ o' g', f.Sets i m o' g' ↔ o' = o ∧ g' = g) ∧
      f.setLevel i m = o.map (fun _ => g) ∧
      (m = none ∨ m = some (f.level i) → o = .ok () ∧ g = f) ∧
      (∀ l, m = some l → (f.level i).higher l = true →
        o = .error ⟨(f.label i).name, f.level i, l⟩ ∧ g = f) ∧
      ∀ l, m = some l → l.higher (f.level i) = true →
        o = .ok () ∧ f.Levelled l (i :: above.takeWhile fun p => l.higher (f.level p)) g := by
  obtain ⟨above, habove⟩ := hg.exists_lineage i
  refine ⟨above, habove, fun m => ?_⟩
  by_cases hm : m = none ∨ m = some (f.level i)
  · have hother {l : Level} (hl : m = some l) : l = f.level i := by simpa [hl] using hm
    refine ⟨.ok (), f, fun o' g' => (Sets.keep hm).iff, setLevel_of_keep hm, fun _ => ⟨rfl, rfl⟩,
      fun l hl hlow => ?_, fun l hl hup => ?_⟩
    · simp [hother hl, Level.higher_self] at hlow
    · simp [hother hl, Level.higher_self] at hup
  · rw [not_or] at hm
    obtain ⟨l, rfl⟩ := Option.ne_none_iff_exists'.1 hm.1
    have hne : l ≠ f.level i := by simpa using hm.2
    cases hlow : (f.level i).higher l with
    | true =>
      refine ⟨_, f, fun o' g' => (Sets.refuse hne hlow).iff, setLevel_of_lower hlow,
        by simp [hne], fun l' hl' _ => ?_, fun l' hl' hup => ?_⟩
      · cases hl'
        exact ⟨rfl, rfl⟩
      · cases hl'
        simp [(higher_level_iff.1 hup).2] at hlow
    | false =>
      have hup : l.higher (f.level i) = true := higher_level_iff.2 ⟨hne, hlow⟩
      obtain ⟨k, hk⟩ := hg.exists_raises i l
      obtain rfl := hk.eq_raise hf hi
      refine ⟨.ok (), _, fun o' g' => (hk.sets hup).iff, setLevel_of_higher hup,
        by simp [hne], fun l' hl' hlow' => ?_, fun l' hl' _ => ?_⟩
      · cases hl'
        simp [hlow] at hlow'
      · cases hl'
        exact ⟨rfl, habove.levelled_raise hf hi⟩

/-- A node with a warning has moved below a root without a level. A warning further down stops at
the moved node, an error reaches the root, and the moved node refuses to have no warning. -/
theorem setLevel_effect_moved :
    ∃ f : Forest, f.Coherent ∧ f.Grounded ∧ ¬f.Dominated ∧ f.Lineage 4 [3, 2, 1] ∧
      (∃ g, f.setLevel 4 (some .warn) = .ok g ∧ f.Levelled .warn [4, 3] g ∧ g.level 1 = .none) ∧
      (∃ g, f.setLevel 4 (some .error) = .ok g ∧ f.Levelled .error [4, 3, 2, 1] g) ∧
      ∃ e, f.setLevel 2 (some .info) = .error e ∧ f.Sets 2 (some .info) (.error e) f := by
  have hroots : ((empty.addRoot "Build").2.addRoot "Docs").2.Fresh :=
    (fresh_empty.addRoot "Build").addRoot "Docs"
  have hadd := hroots.owned.addBelow (i := 0) (by decide) (x := { name := "src", level := .warn })
  have hmove := hadd.perform (c := .move 2 1) (by decide) ⟨by decide, fun h => by
    obtain ⟨p, hp, -⟩ := Relation.TransGen.head'_iff.1 h
    cases hp⟩
  have howned := (hmove.addBelow (i := 2) (by decide) (x := { name := "lib" })).addBelow
    (i := 3) (by decide) (x := { name := "io" })
  have hgrounded := howned.acyclic.grounded howned.coherent
  obtain ⟨above, habove, hset⟩ :=
    setLevel_effect howned.coherent.parent_lt hgrounded (i := 4) (by decide)
  obtain rfl : above = [3, 2, 1] :=
    habove.unique (.child rfl (.child rfl (.child rfl (.root rfl))))
  obtain ⟨o, g, -, hwarn, -, -, hg⟩ := hset (some .warn)
  obtain ⟨rfl, hlevelled⟩ := hg .warn rfl (by decide)
  obtain ⟨o', k, -, herror, -, -, hk⟩ := hset (some .error)
  obtain ⟨rfl, hlevelled'⟩ := hk .error rfl (by decide)
  obtain ⟨above, -, hset'⟩ :=
    setLevel_effect howned.coherent.parent_lt hgrounded (i := 2) (by decide)
  obtain ⟨o'', h, hsets, hinfo, -, hrefused, -⟩ := hset' (some .info)
  obtain ⟨rfl, rfl⟩ := hrefused .info rfl (by decide)
  refine ⟨_, howned.coherent, hgrounded, fun h => ?_, habove, ⟨g, hwarn, hlevelled, ?_⟩,
    ⟨k, herror, hlevelled'⟩, _, hinfo, (hsets _ _).2 ⟨rfl, rfl⟩⟩
  · exact absurd (h 1 2 (by decide)) (by decide)
  · rw [level, hlevelled.label_eq]
    decide

end ReportTree.Forest
