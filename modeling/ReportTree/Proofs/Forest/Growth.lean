import ReportTree.Forest.Import
import ReportTree.Forest.Path
import ReportTree.Proofs.Forest.Coherence

/-!
# Growing

The operations that make nodes are made of three small changes: a node is made, a label changes, a
node is raised. A level that a node is raised to was demanded for this node, by a marker, by a
failure or by a caller. The levels that ancestors get are nobody's demand.

* `Growth`: small changes, with the demands among them.
* `growsTo_addLine`, `growsTo_fileNode`, `growsTo_addAccount`: the operations that make nodes grow a
  forest, and the node that they return is there.
* `growth_setLevel`: so does the one that sets a level.
-/

namespace ReportTree.Forest

/-- A level that is demanded for a node. -/
structure Demand where
  node : NodeId
  level : Level
  deriving DecidableEq

/-- Small changes, one after the other, and what was demanded in them. -/
inductive Growth (f : Forest) : List Demand → Forest → Prop
  | refl : Growth f [] f
  /-- A label changes, but for its level. -/
  | relabel {ds : List Demand} {g : Forest} (h : Growth f ds g) (i : NodeId) {x : Label → Label}
      (hx : ∀ l, (x l).level = l.level) : Growth f ds (g.modifyLabel i x)
  /-- A node without a level is made below another. -/
  | grow {ds : List Demand} {g : Forest} (h : Growth f ds g) {i : NodeId} (hi : i < g.size)
      {x : Label} (hx : x.level = .none) : Growth f ds (g.addBelow i x).2
  /-- A node is raised. -/
  | raise {ds : List Demand} {g : Forest} (h : Growth f ds g) {i : NodeId} (hi : i < g.size)
      {l : Level} (hl : l.atLeast (g.level i) = true) : Growth f (ds ++ [⟨i, l⟩]) (g.raise i l)
  /-- The level that a node has already is demanded. -/
  | keep {ds : List Demand} {g : Forest} (h : Growth f ds g) (i : NodeId) :
      Growth f (ds ++ [⟨i, g.level i⟩]) g

/-- A forest grows to another, in which the returned node is there. -/
structure GrowsTo (f : Forest) (ds : List Demand) (r : NodeId × Forest) : Prop where
  growth : Growth f ds r.2
  lt : r.1 < r.2.size

/-- What is recorded along a loop, where `step` is a turn and `record` what is recorded in it. -/
def along {α β : Type} (step : Forest → α → Forest) (record : Forest → α → List β) :
    Forest → List α → List β
  | _, [] => []
  | f, a :: as => record f a ++ along step record (step f a) as

variable {f g k : Forest} {i : NodeId} {ds es : List Demand} {r s : NodeId × Forest}

theorem Growth.trans (h : Growth f ds g) (hk : Growth g es k) : Growth f (ds ++ es) k := by
  induction hk with
  | refl => rwa [List.append_nil]
  | relabel _ i hx ih => exact ih.relabel i hx
  | grow _ hi hx ih => exact ih.grow hi hx
  | raise _ hi hl ih =>
    rw [← List.append_assoc]
    exact ih.raise hi hl
  | keep _ i ih =>
    rw [← List.append_assoc]
    exact ih.keep i

theorem Growth.coherent (h : Growth f ds g) (hf : f.Coherent) : g.Coherent := by
  induction h with
  | refl => exact hf
  | relabel _ _ _ ih => exact ih.modifyLabel _
  | grow _ hi _ ih => exact ih.addBelow hi
  | raise _ _ _ ih => exact ih.raise _
  | keep _ _ ih => exact ih

/-- No node goes away. -/
theorem Growth.size_le (h : Growth f ds g) : f.size ≤ g.size := by
  induction h with
  | refl => exact Nat.le_refl _
  | relabel _ _ _ ih => rwa [size_modifyLabel]
  | grow _ _ _ ih =>
    rw [size_addBelow]
    exact Nat.le_succ_of_le ih
  | raise _ _ _ ih => rwa [size_raise]
  | keep _ _ ih => exact ih

/-- A loop grows a forest if every turn does. -/
theorem growth_along {α : Type} {step : Forest → α → Forest} {record : Forest → α → List Demand}
    (h : ∀ es g, Growth f es g → ∀ a, Growth g (record g a) (step g a)) (as : List α) :
    Growth f (along step record f as) (as.foldl step f) := by
  induction as generalizing f with
  | nil => exact .refl
  | cons a as ih =>
    have hfirst := h [] f .refl a
    exact hfirst.trans (ih fun es g hg => h _ g (hfirst.trans hg))

theorem GrowsTo.refl (hi : i < f.size) : GrowsTo f [] (i, f) := ⟨.refl, hi⟩

theorem GrowsTo.coherent (h : GrowsTo f ds r) (hf : f.Coherent) : r.2.Coherent :=
  h.growth.coherent hf

theorem GrowsTo.trans (h : GrowsTo f ds r) (hs : GrowsTo r.2 es s) : GrowsTo f (ds ++ es) s :=
  ⟨h.growth.trans hs.growth, hs.lt⟩

/-- The label of the returned node changes at last. -/
theorem GrowsTo.relabel (h : GrowsTo f ds r) {x : Label → Label} (hx : ∀ l, (x l).level = l.level) :
    GrowsTo f ds (r.1, r.2.modifyLabel r.1 x) :=
  ⟨h.growth.relabel _ hx, by rw [size_modifyLabel]; exact h.lt⟩

/-- A node is made below the returned one. -/
theorem GrowsTo.grow (h : GrowsTo f ds r) {x : Label} (hx : x.level = .none) :
    GrowsTo f ds (r.2.addBelow r.1 x) :=
  ⟨h.growth.grow h.lt hx, lt_size_addBelow⟩

/-- The new node has no level before it gets its own. -/
theorem GrowsTo.growRaised (h : GrowsTo f ds r) {x : Label} (hx : x.level = .none) (l : Level) :
    GrowsTo f (ds ++ [⟨r.2.size, l⟩]) (r.2.size, (r.2.addBelow r.1 x).2.raise r.2.size l) := by
  have hadd := h.grow hx
  refine ⟨hadd.growth.raise hadd.lt ?_, by rw [size_raise]; exact hadd.lt⟩
  rw [addBelow_fst, level_addBelow, if_pos rfl, hx]
  exact Level.atLeast_none _

/-! ## Levels -/

/-- A level that is set is demanded. -/
theorem growth_setLevel (hi : i < f.size) {l : Option Level} (h : f.setLevel i l = .ok g) :
    Growth f (l.toList.map (⟨i, ·⟩)) g := by
  unfold setLevel at h
  split at h
  · cases h
    exact .refl
  · next l =>
    split at h
    · next hl =>
      cases h
      rw [hl]
      exact Growth.refl.keep i
    · split at h
      · cases h
      · next hl =>
        cases h
        exact Growth.refl.raise hi (Level.atLeast_of_not_higher hl)

/-! ## Markup -/

theorem growsTo_openLastChild (hf : f.Coherent) (hi : i < f.size) :
    GrowsTo f [] (f.openLastChild i) := by
  cases hlast : (f.children i).getLast? with
  | some c =>
    simp only [openLastChild, hlast]
    exact (GrowsTo.refl (hf.child_lt (List.mem_of_getLast? hlast))).relabel fun _ => rfl
  | none =>
    simp only [openLastChild, hlast]
    exact ((GrowsTo.refl hi).grow rfl).relabel fun _ => rfl

theorem growsTo_openDown (hf : f.Coherent) (hi : i < f.size) (depth : Nat) :
    GrowsTo f [] (openDown depth i f) := by
  induction depth generalizing i f with
  | zero => exact .refl hi
  | succ depth ih =>
    have hopen := growsTo_openLastChild hf hi
    exact hopen.trans (ih (hopen.coherent hf) hopen.lt)

/-- The level of a line is demanded for its node. -/
theorem growsTo_addLine (hf : f.Coherent) (hi : i < f.size) (line : Markup.Line) :
    GrowsTo f [⟨(f.addLine i line).1, line.level⟩] (f.addLine i line) :=
  (growsTo_openDown hf hi line.depth).growRaised rfl line.level

/-- What a line of markup demands, for the node that it makes. -/
def markupDemands (i : NodeId) (f : Forest) (markup : Text) : List Demand :=
  [⟨(f.addChild i markup).1, (Markup.Line.read markup).level⟩]

theorem growsTo_addChild (hf : f.Coherent) (hi : i < f.size) (markup : Text) :
    GrowsTo f (markupDemands i f markup) (f.addChild i markup) :=
  growsTo_addLine hf hi _

/-! ## Paths -/

/-- What is demanded where a path goes down: a segment for which a node is made is markup. -/
def segmentDemands (folder : Text) (i : NodeId) (f : Forest) (segment : Text) : List Demand :=
  match f.childNamed? i segment with
  | some _ => []
  | none => [⟨(openSegment folder i f segment).1, (Markup.Line.read segment).level⟩]

/-- What is demanded on the way down a path. -/
def pathDemands (folder : Text) : NodeId → Forest → List Text → List Demand
  | _, _, [] => []
  | i, f, s :: ss =>
    let (c, g) := openSegment folder i f s
    segmentDemands folder i f s ++ pathDemands folder c g ss

theorem growsTo_openSegment (hf : f.Coherent) (hi : i < f.size) (folder segment : Text) :
    GrowsTo f (segmentDemands folder i f segment) (openSegment folder i f segment) := by
  unfold segmentDemands
  cases hc : f.childNamed? i segment with
  | some c =>
    simp only [openSegment_eq, hc]
    exact .refl (hf.child_lt (List.mem_of_find?_eq_some hc))
  | none =>
    simp only [openSegment_eq, hc]
    -- The node becomes a folder first, if it has no icon.
    suffices h : ∀ g : Forest, Growth f [] g → g.size = f.size →
        GrowsTo f (markupDemands i g segment) (g.addChild i segment) by
      split
      · exact h _ (Growth.refl.relabel i fun _ => rfl) size_modifyLabel
      · exact h f .refl rfl
    intro g hg hsize
    have hadd := growsTo_addChild (hg.coherent hf) (hsize ▸ hi) segment
    exact ⟨hg.trans hadd.growth, hadd.lt⟩

theorem growsTo_openSegments (hf : f.Coherent) (hi : i < f.size) (folder : Text)
    (path : List Text) : GrowsTo f (pathDemands folder i f path) (openSegments folder i f path) := by
  induction path generalizing i f with
  | nil => exact .refl hi
  | cons segment path ih =>
    have hopen := growsTo_openSegment hf hi folder segment
    exact hopen.trans (ih (hopen.coherent hf) hopen.lt)

theorem growsTo_fileNode (hf : f.Coherent) (hi : i < f.size) (path folder file : Text) :
    GrowsTo f (pathDemands folder i f (segments path)) (f.fileNode i path folder file) :=
  (growsTo_openSegments hf hi folder (segments path)).relabel fun _ => rfl

/-! ## Failures -/

/-- What lines of markup demand that are added below `i`, one after the other. -/
def linesDemands (i : NodeId) : Forest → List Text → List Demand :=
  along (fun f line => (f.addChild i line).2) (markupDemands i)

/-- Lines of markup are added below the returned node at last. -/
theorem GrowsTo.addChildren (h : GrowsTo f ds r) (hf : f.Coherent) (lines : List Text) :
    GrowsTo f (ds ++ linesDemands r.1 r.2 lines)
      (r.1, lines.foldl (fun g line => (g.addChild r.1 line).2) r.2) := by
  have hlines : Growth r.2 (linesDemands r.1 r.2 lines)
      (lines.foldl (fun g line => (g.addChild r.1 line).2) r.2) := by
    refine growth_along (fun es g hg line => ?_) lines
    have hi : r.1 < g.size := Nat.lt_of_lt_of_le h.lt hg.size_le
    exact (growsTo_addChild (hg.coherent (h.coherent hf)) hi line).growth
  exact ⟨h.growth.trans hlines, Nat.lt_of_lt_of_le h.lt hlines.size_le⟩

/-- The forest with the node of a failure below `i`, before the other lines of the text are added. -/
def failureNode (f : Forest) (i : NodeId) (x : Failure) : Forest :=
  ((f.addBelow i { name := (messageLines x.displayText).1 }).2.raise f.size .error).expand f.size

theorem addFailure_eq (f : Forest) (i : NodeId) (x : Failure) :
    f.addFailure i x = (f.size, (messageLines x.displayText).2.foldl
      (fun g line => (g.addChild f.size line).2) (f.failureNode i x)) :=
  congrArg (f.size, ·) (addChildren_eq f.size (f.failureNode i x) _)

/-- What a failure demands: an error for its node, and what the other lines of its text do. -/
def failureDemands (f : Forest) (i : NodeId) (x : Failure) : List Demand :=
  ⟨f.size, .error⟩ :: linesDemands f.size (f.failureNode i x) (messageLines x.displayText).2

theorem growsTo_addFailure (hf : f.Coherent) (hi : i < f.size) (x : Failure) :
    GrowsTo f (f.failureDemands i x) (f.addFailure i x) := by
  have hnode := (GrowsTo.refl hi).growRaised (x := { name := (messageLines x.displayText).1 })
    rfl .error
  have hopen : GrowsTo f [⟨f.size, .error⟩] (f.size, f.failureNode i x) :=
    hnode.relabel (x := fun l => { l with expanded := true }) fun _ => rfl
  rw [addFailure_eq]
  exact hopen.addChildren hf _

mutual

/-- What the failures of an account demand whose nodes are made below `i`. -/
def accountDemands (f : Forest) (g : Failures) (i : NodeId) : Failures.Account → List Demand
  | .of e parts =>
    let (c, h) := f.addFailure i (g.get e)
    f.failureDemands i (g.get e) ++ accountsDemands h g c parts

/-- What the failures of accounts demand, one account after the other. -/
def accountsDemands (f : Forest) (g : Failures) (i : NodeId) :
    List Failures.Account → List Demand
  | [] => []
  | a :: as => accountDemands f g i a ++ accountsDemands (f.addAccount g i a).2 g i as

end

mutual

theorem growsTo_addAccount {f : Forest} {i : NodeId} (hf : f.Coherent) (hi : i < f.size)
    (g : Failures) (a : Failures.Account) :
    GrowsTo f (f.accountDemands g i a) (f.addAccount g i a) := by
  match a with
  | .of e parts =>
    have hadd := growsTo_addFailure hf hi (g.get e)
    have hparts := growth_addAccounts (hadd.coherent hf) hadd.lt g parts
    exact ⟨hadd.growth.trans hparts, Nat.lt_of_lt_of_le hadd.lt hparts.size_le⟩

theorem growth_addAccounts {f : Forest} {i : NodeId} (hf : f.Coherent) (hi : i < f.size)
    (g : Failures) (as : List Failures.Account) :
    Growth f (f.accountsDemands g i as) (f.addAccounts g i as) := by
  match as with
  | [] => exact .refl
  | a :: as =>
    have hadd := (growsTo_addAccount hf hi g a).growth
    exact hadd.trans
      (growth_addAccounts (hadd.coherent hf) (Nat.lt_of_lt_of_le hi hadd.size_le) g as)

end

end ReportTree.Forest
