import ReportTree.Proofs.Report.Severity

/-!
# Positions in a tree

A node is known by where it stands: by the numbers of the children on the way down to it. Other
nodes may show the same, but no other one stands there. Positions are compared number by number from
the top, a shorter one before those that go on after it, so that a node comes before what is below it
and what is below it before the siblings that follow.

* `Tree.Passes`: a node and the nodes above it are kept, up to the root.
* `Tree.mem_shown_iff`, `Tree.pairwise_shown`: the nodes that pass are listed in their order, each
  once.
* `Tree.Dominated.passes_iff`: in a dominated tree it depends on the node alone whether it passes.
-/

namespace ReportTree.Tree

/-- Where a node stands: the number of the child, for every step down from the root. -/
abbrev Position := List Nat

/-- The label of the node at a position, if there is one. -/
def labelAt? (t : Tree) : Position → Option Label
  | [] => some t.label
  | k :: p => t.children[k]?.bind fun u => u.labelAt? p

/-- The node at a position is kept, and so are those on the way down to it. The root does not
count. -/
def Passes (keep : Label → Bool) (t : Tree) (p : Position) : Prop :=
  ∀ q, q <+: p → q ≠ [] → ∃ x, t.labelAt? q = some x ∧ keep x = true

mutual

/-- The root and the nodes that are reached from it through nodes that are kept, with their
positions. -/
def shown (keep : Label → Bool) : Tree → List (Position × Label)
  | .node x ts => ([], x) :: shownFrom keep 0 ts

/-- The same for trees that stand side by side, from the child with number `k` on. -/
def shownFrom (keep : Label → Bool) (k : Nat) : List Tree → List (Position × Label)
  | [] => []
  | t :: ts =>
    (if keep t.label then (shown keep t).map fun r => (k :: r.1, r.2) else []) ++
      shownFrom keep (k + 1) ts

end

variable {keep : Label → Bool} {t u : Tree} {ts : List Tree} {p q : Position} {k : Nat} {x : Label}

theorem labelAt?_cons (t : Tree) (k : Nat) (p : Position) :
    t.labelAt? (k :: p) = t.children[k]?.bind fun u => u.labelAt? p := rfl

theorem passes_nil : t.Passes keep [] := by
  intro q hq hne
  exact absurd (List.prefix_nil.1 hq) hne

/-- A node passes if the child on the way down to it is kept and it passes from there. -/
theorem passes_cons_iff :
    t.Passes keep (k :: p) ↔
      ∃ u, t.children[k]? = some u ∧ keep u.label = true ∧ u.Passes keep p := by
  constructor
  · intro h
    obtain ⟨x, hx, hkeep⟩ := h [k] (List.prefix_append [k] p) (List.cons_ne_nil k [])
    obtain ⟨u, hu, hlabel⟩ := Option.bind_eq_some_iff.1 hx
    cases hlabel
    refine ⟨u, hu, hkeep, fun q hq hne => ?_⟩
    obtain ⟨y, hy, hkeep⟩ := h (k :: q) (List.cons_prefix_cons.2 ⟨rfl, hq⟩) (List.cons_ne_nil k q)
    rw [labelAt?_cons, hu] at hy
    exact ⟨y, hy, hkeep⟩
  · rintro ⟨u, hu, hkeep, hpasses⟩ q hq hne
    obtain ⟨j, q, rfl⟩ := List.exists_cons_of_ne_nil hne
    obtain ⟨rfl, hbelow⟩ := List.cons_prefix_cons.1 hq
    rw [labelAt?_cons, hu, Option.bind_some]
    cases q with
    | nil => exact ⟨u.label, rfl, hkeep⟩
    | cons i q => exact hpasses (i :: q) hbelow (List.cons_ne_nil i q)

/-! ## The nodes that pass -/

theorem mem_shownFrom_iff :
    (p, x) ∈ shownFrom keep k ts ↔
      ∃ j q u, p = (k + j) :: q ∧ ts[j]? = some u ∧ keep u.label = true ∧ (q, x) ∈ u.shown keep := by
  induction ts generalizing k with
  | nil => simp [shownFrom]
  | cons t ts ih =>
    rw [shownFrom, List.mem_append, ih]
    constructor
    · rintro (h | ⟨j, q, u, rfl, hu, hkeep, hmem⟩)
      · split at h
        · next hkeep =>
          obtain ⟨⟨q, y⟩, hmem, heq⟩ := List.mem_map.1 h
          cases heq
          exact ⟨0, q, t, rfl, rfl, hkeep, hmem⟩
        · cases h
      · exact ⟨j + 1, q, u, by rw [Nat.add_right_comm, Nat.add_assoc], hu, hkeep, hmem⟩
    · rintro ⟨j, q, u, rfl, hu, hkeep, hmem⟩
      cases j with
      | zero =>
        cases hu
        rw [if_pos hkeep]
        exact .inl (List.mem_map.2 ⟨(q, x), hmem, rfl⟩)
      | succ j => exact .inr ⟨j, q, u, by rw [Nat.add_right_comm, Nat.add_assoc], hu, hkeep, hmem⟩

/-- The nodes that pass are listed, and no others. -/
theorem mem_shown_iff : (p, x) ∈ t.shown keep ↔ t.labelAt? p = some x ∧ t.Passes keep p := by
  induction p generalizing t with
  | nil =>
    obtain ⟨y, ts⟩ := t
    rw [shown, List.mem_cons, mem_shownFrom_iff, labelAt?, label]
    constructor
    · rintro (h | ⟨j, q, u, hp, -⟩)
      · cases h
        exact ⟨rfl, passes_nil⟩
      · cases hp
    · rintro ⟨h, -⟩
      cases h
      exact .inl rfl
  | cons k p ih =>
    obtain ⟨y, ts⟩ := t
    rw [shown, List.mem_cons, mem_shownFrom_iff, labelAt?_cons, passes_cons_iff, children]
    constructor
    · rintro (h | ⟨j, q, u, hp, hu, hkeep, hmem⟩)
      · cases h
      · rw [Nat.zero_add] at hp
        cases hp
        obtain ⟨hlabel, hpasses⟩ := ih.1 hmem
        rw [hu]
        exact ⟨hlabel, u, rfl, hkeep, hpasses⟩
    · rintro ⟨hlabel, u, hu, hkeep, hpasses⟩
      rw [hu, Option.bind_some] at hlabel
      exact .inr ⟨k, p, u, by rw [Nat.zero_add], hu, hkeep, ih.2 ⟨hlabel, hpasses⟩⟩

mutual

/-- They are listed in the order of their positions. -/
theorem pairwise_shown (keep : Label → Bool) (t : Tree) :
    (t.shown keep).Pairwise fun a b => a.1 < b.1 := by
  match t with
  | .node x ts =>
    rw [shown]
    refine List.pairwise_cons.2 ⟨?_, pairwise_shownFrom keep 0 ts⟩
    rintro ⟨p, y⟩ hmem
    obtain ⟨j, q, u, rfl, -⟩ := mem_shownFrom_iff.1 hmem
    exact List.nil_lt_cons _ _

theorem pairwise_shownFrom (keep : Label → Bool) (k : Nat) (ts : List Tree) :
    (shownFrom keep k ts).Pairwise fun a b => a.1 < b.1 := by
  match ts with
  | [] => exact .nil
  | t :: ts =>
    rw [shownFrom]
    refine List.pairwise_append.2 ⟨?_, pairwise_shownFrom keep (k + 1) ts, ?_⟩
    · split
      · refine List.pairwise_map.2 ((pairwise_shown keep t).imp fun h => ?_)
        exact List.cons_lt_cons_iff.2 (.inr ⟨rfl, h⟩)
      · exact .nil
    · rintro ⟨p, y⟩ hp ⟨q, z⟩ hq
      obtain ⟨j, q, u, rfl, -⟩ := mem_shownFrom_iff.1 hq
      split at hp
      · obtain ⟨r, -, heq⟩ := List.mem_map.1 hp
        cases heq
        exact List.cons_lt_cons_iff.2 (.inl (by omega))
      · cases hp

end

/-! ## Dominated trees -/

/-- The root is at least as severe as the node at any position. -/
theorem Dominated.atLeast_of_labelAt? (ht : t.Dominated) (hx : t.labelAt? p = some x) :
    t.label.level.atLeast x.level = true := by
  induction p generalizing t with
  | nil =>
    cases hx
    exact Level.atLeast_refl _
  | cons k p ih =>
    obtain ⟨u, hu, hux⟩ := Option.bind_eq_some_iff.1 hx
    cases ht with
    | node hlevel hbelow =>
      have hmem := List.mem_of_getElem? hu
      exact Level.atLeast_trans (hlevel u hmem) (ih (hbelow u hmem) hux)

/-- The nodes above a node are as severe as the node itself, so that it depends on this one alone
whether it passes a level. -/
theorem Dominated.passes_iff (ht : t.Dominated) {l : Level} (hx : t.labelAt? p = some x)
    (hne : p ≠ []) : t.Passes (fun y => y.level.atLeast l) p ↔ x.level.atLeast l = true := by
  constructor
  · intro h
    obtain ⟨y, hy, hl⟩ := h p (List.prefix_refl p) hne
    rw [hx] at hy
    cases hy
    exact hl
  · intro hl
    induction p generalizing t with
    | nil => exact absurd rfl hne
    | cons k p ih =>
      obtain ⟨u, hu, hux⟩ := Option.bind_eq_some_iff.1 hx
      cases ht with
      | node hlevel hbelow =>
        have hdominated := hbelow u (List.mem_of_getElem? hu)
        refine passes_cons_iff.2 ⟨u, hu, ?_, ?_⟩
        · exact Level.atLeast_trans (hdominated.atLeast_of_labelAt? hux) hl
        · cases p with
          | nil => exact passes_nil
          | cons i p => exact ih hdominated hux (List.cons_ne_nil i p)

end ReportTree.Tree
