import Mathlib.Data.List.Pairwise
import ReportTree.Proofs.Tree.Folded

/-!
# The order that merging leaves

Merging sorts the children of a folder by the names that they have before they are merged
themselves. A child that absorbs another one gets a longer name afterwards, with a slash after the
old one. A sibling whose name goes on after the old one with a code point before the slash comes
after this child all the same: it should come before it now. Nothing else spoils the order.

* `Text.le_append_slash_iff`: when a text with a slash after it comes before another one.
* `Tree.Ordered`: the children of folders are in the order of their names.
* `Tree.Spoiled`: a folder that absorbs its only child has such a sibling.
* `Tree.ordered_folded_iff`, `Tree.ordered_foldedBelow_iff`: merging leaves an ordered tree if and
  only if nothing of the kind was there.
-/

namespace ReportTree

/-! ## A slash after a name -/

namespace Text

variable {s t x y : Text}

/-- `t` goes on after `s`, with a code point before the slash. -/
def Undercuts (t s : Text) : Prop := ∃ c rest, t = s ++ c :: rest ∧ c.toNat < '/'.toNat

theorem undercuts_cons_iff {c : CodePoint} : Undercuts (c :: t) (c :: s) ↔ t.Undercuts s := by
  simp [Undercuts]

theorem Undercuts.le (h : t.Undercuts s) : s.le t = true := by
  obtain ⟨c, rest, rfl, -⟩ := h
  induction s with
  | nil => rfl
  | cons d s ih => rwa [List.cons_append, Text.le, if_pos rfl]

theorem Undercuts.ne (h : t.Undercuts s) : s ≠ t := by
  obtain ⟨c, rest, rfl, -⟩ := h
  exact fun h => List.cons_ne_nil c rest (List.self_eq_append_right.1 h)

theorem le_append_right (h : s.le t = true) (y : Text) : s.le (t ++ y) = true := by
  induction s generalizing t with
  | nil => rfl
  | cons c s ih =>
    cases t with
    | nil => cases h
    | cons d t =>
      rw [Text.le] at h
      rw [List.cons_append, Text.le]
      split
      · next hcd =>
        rw [if_pos hcd] at h
        exact ih h
      · next hcd => rwa [if_neg hcd] at h

/-- With a slash and more after it, a text still comes before one that came after it, unless that
undercuts it. -/
theorem le_append_slash_iff (hle : s.le t = true) (hne : s ≠ t) (ht : CodePoint.scalar '/' ∉ t)
    (x y : Text) : (s ++ .scalar '/' :: x).le (t ++ y) = true ↔ ¬t.Undercuts s := by
  induction s generalizing t with
  | nil =>
    cases t with
    | nil => exact absurd rfl hne
    | cons d t =>
      have hd : CodePoint.scalar '/' ≠ d := fun h => ht (h ▸ List.mem_cons_self)
      have hnum : '/'.toNat ≠ d.toNat := fun h => hd (CodePoint.toNat_inj.1 h)
      have hundercuts : Undercuts (d :: t) [] ↔ d.toNat < '/'.toNat := by simp [Undercuts]
      rw [List.nil_append, List.cons_append, Text.le, if_neg hd, decide_eq_true_eq, hundercuts,
        Nat.not_lt, Nat.le_iff_lt_or_eq, or_iff_left hnum]
      rfl
  | cons c s ih =>
    cases t with
    | nil => cases hle
    | cons d t =>
      rw [Text.le] at hle
      rw [List.cons_append, List.cons_append, Text.le]
      by_cases hcd : c = d
      · subst hcd
        rw [if_pos rfl] at hle ⊢
        rw [undercuts_cons_iff]
        exact ih hle (fun h => hne (h ▸ rfl)) fun h => ht (List.mem_cons_of_mem c h)
      · rw [if_neg hcd] at hle ⊢
        refine iff_of_true hle ?_
        rintro ⟨e, rest, heq, -⟩
        rw [List.cons_append, List.cons.injEq] at heq
        exact hcd heq.1.symm

end Text

namespace Tree

variable {folder : Text} {t u v : Tree} {ts : List Tree}

/-! ## Subtrees -/

mutual

/-- The tree and all trees below its root. -/
def subtrees : Tree → List Tree
  | .node l ts => .node l ts :: subtreesAll ts

/-- The subtrees of trees, one tree after the other. -/
def subtreesAll : List Tree → List Tree
  | [] => []
  | t :: ts => subtrees t ++ subtreesAll ts

end

theorem mem_subtreesAll_iff : u ∈ subtreesAll ts ↔ ∃ t ∈ ts, u ∈ t.subtrees := by
  induction ts with
  | nil => simp [subtreesAll]
  | cons t ts ih => simp [subtreesAll, ih]

theorem mem_subtrees_iff : u ∈ t.subtrees ↔ u = t ∨ ∃ c ∈ t.children, u ∈ c.subtrees := by
  obtain ⟨l, ts⟩ := t
  rw [subtrees, List.mem_cons, mem_subtreesAll_iff, children]

theorem mem_subtrees_self (t : Tree) : t ∈ t.subtrees := mem_subtrees_iff.2 (.inl rfl)

theorem mem_subtrees_of_mem (hc : v ∈ t.children) (hu : u ∈ v.subtrees) : u ∈ t.subtrees :=
  mem_subtrees_iff.2 (.inr ⟨v, hc, hu⟩)

/-- What holds of a tree and of the subtrees of its children holds of all its subtrees. -/
theorem forall_mem_subtrees_iff {P : Tree → Prop} :
    (∀ u ∈ t.subtrees, P u) ↔ P t ∧ ∀ c ∈ t.children, ∀ u ∈ c.subtrees, P u := by
  constructor
  · exact fun h => ⟨h t (mem_subtrees_self t), fun c hc u hu => h u (mem_subtrees_of_mem hc hu)⟩
  · rintro ⟨ht, hbelow⟩ u hu
    rcases mem_subtrees_iff.1 hu with rfl | ⟨c, hc, hu⟩
    · exact ht
    · exact hbelow c hc u hu

/-! ## Order -/

/-- Trees are in the order of the names of their roots. -/
def InOrder (ts : List Tree) : Prop :=
  ts.Pairwise fun t u => t.label.name.le u.label.name = true

instance (ts : List Tree) : Decidable (InOrder ts) :=
  inferInstanceAs (Decidable (ts.Pairwise _))

/-- The children of every folder are in the order of their names. -/
def Ordered (folder : Text) (t : Tree) : Prop :=
  ∀ u ∈ t.subtrees, u.label.icon = folder → InOrder u.children

instance (folder : Text) (t : Tree) : Decidable (t.Ordered folder) :=
  inferInstanceAs (Decidable (∀ u ∈ t.subtrees, u.label.icon = folder → InOrder u.children))

/-- The root is a folder that absorbs its only child. -/
def Absorbs (folder : Text) (t : Tree) : Prop :=
  t.label.icon = folder ∧ (t.onlyFolder? folder).isSome

/-- A tree that absorbs its only child is among others, one of which has a name that undercuts the
one of its root. -/
def SpoiledAmong (folder : Text) (ts : List Tree) : Prop :=
  ∃ t ∈ ts, t.Absorbs folder ∧ ∃ u ∈ ts, u.label.name.Undercuts t.label.name

/-- Somewhere in the tree, a folder is among such siblings. -/
def Spoiled (folder : Text) (t : Tree) : Prop :=
  ∃ u ∈ t.subtrees, SpoiledAmong folder u.children

/-- Siblings can be told apart by their names, in which there are no slashes. What has children is a
folder. -/
structure Named (folder : Text) (t : Tree) : Prop where
  icon_eq : t.children ≠ [] → t.label.icon = folder
  nodup : (t.children.map fun u => u.label.name).Nodup
  no_slash : ∀ u ∈ t.children, CodePoint.scalar '/' ∉ u.label.name

theorem ordered_iff : t.Ordered folder ↔
    (t.label.icon = folder → InOrder t.children) ∧ ∀ c ∈ t.children, c.Ordered folder :=
  forall_mem_subtrees_iff

theorem not_spoiled_iff : ¬t.Spoiled folder ↔
    ¬SpoiledAmong folder t.children ∧ ∀ c ∈ t.children, ¬c.Spoiled folder := by
  simp only [Spoiled, not_exists, not_and]
  exact forall_mem_subtrees_iff

/-- An only child has no siblings, and its own children are the same after it is absorbed. -/
theorem spoiled_absorbing_iff (hu : t.children = [u]) :
    (t.absorbing u).Spoiled folder ↔ t.Spoiled folder := by
  have hsingle : ¬SpoiledAmong folder [u] := by
    rintro ⟨v, hv, -, w, hw, hundercuts⟩
    rw [List.mem_singleton.1 hv, List.mem_singleton.1 hw] at hundercuts
    exact hundercuts.ne rfl
  rw [← not_iff_not, not_spoiled_iff, not_spoiled_iff, hu, List.forall_mem_singleton,
    and_iff_right hsingle, not_spoiled_iff, absorbing, children]

/-! ## What merging does to a name -/

/-- A root that absorbs nothing keeps its name. -/
theorem name_folded_of_not_absorbs (h : ¬t.Absorbs folder) :
    (t.folded folder).label.name = t.label.name := by
  by_cases hi : t.label.icon = folder
  · have hnone : t.onlyFolder? folder = none := by
      rw [← Option.not_isSome_iff_eq_none]
      exact fun hsome => h ⟨hi, hsome⟩
    rw [folded_of_onlyFolder?_eq_none hi hnone]
    rfl
  · rw [folded_of_ne hi]

/-- The name of the root stays in front. -/
theorem exists_name_folded_eq (folder : Text) (t : Tree) :
    ∃ x, (t.folded folder).label.name = t.label.name ++ x := by
  induction t using folded.induct folder with
  | case1 t hi u hu ih =>
    obtain ⟨x, hx⟩ := ih
    refine ⟨"/" ++ u.label.name ++ x, ?_⟩
    rw [folded_of_onlyFolder?_eq_some hi hu, hx]
    simp only [absorbing, label, List.append_assoc]
  | case2 t hi hnone _ =>
    rw [folded_of_onlyFolder?_eq_none hi hnone]
    exact ⟨[], (List.append_nil _).symm⟩
  | case3 t hi =>
    rw [folded_of_ne hi]
    exact ⟨[], (List.append_nil _).symm⟩

/-- A root that absorbs something gets a slash after its name. -/
theorem exists_name_folded_eq_of_absorbs (h : t.Absorbs folder) :
    ∃ x, (t.folded folder).label.name = t.label.name ++ .scalar '/' :: x := by
  obtain ⟨hi, hsome⟩ := h
  obtain ⟨u, hu⟩ := Option.isSome_iff_exists.1 hsome
  obtain ⟨x, hx⟩ := exists_name_folded_eq folder (t.absorbing u)
  refine ⟨u.label.name ++ x, ?_⟩
  rw [folded_of_onlyFolder?_eq_some hi hu, hx]
  simp only [absorbing, label, List.append_assoc]
  rfl

/-- Two siblings stay in order, unless the first one absorbs something and the second one undercuts
it. -/
theorem name_folded_le_iff (hle : t.label.name.le u.label.name = true)
    (hne : t.label.name ≠ u.label.name) (hu : CodePoint.scalar '/' ∉ u.label.name) :
    (t.folded folder).label.name.le (u.folded folder).label.name = true ↔
      ¬(t.Absorbs folder ∧ u.label.name.Undercuts t.label.name) := by
  obtain ⟨y, hy⟩ := exists_name_folded_eq folder u
  rw [hy]
  by_cases ht : t.Absorbs folder
  · obtain ⟨x, hx⟩ := exists_name_folded_eq_of_absorbs ht
    rw [hx, Text.le_append_slash_iff hle hne hu]
    simp [ht]
  · rw [name_folded_of_not_absorbs ht]
    exact iff_of_true (Text.le_append_right hle y) fun h => ht h.1

/-! ## What merging does to the order -/

/-- Of two things in a list, one comes first. -/
theorem rel_or_rel_of_pairwise {α : Type} {R : α → α → Prop} {l : List α} {a b : α}
    (h : l.Pairwise R) (ha : a ∈ l) (hb : b ∈ l) (hab : a ≠ b) : R a b ∨ R b a := by
  have hsymm : Std.Symm fun a b => R a b ∨ R b a := ⟨fun _ _ => Or.symm⟩
  exact (h.imp Or.inl : l.Pairwise fun a b => R a b ∨ R b a).forall ha hb hab

/-- Siblings are in order after they are sorted and merged, unless one of them is spoiled. -/
theorem inOrder_map_folded_iff (hnodup : (ts.map fun t => t.label.name).Nodup)
    (hslash : ∀ t ∈ ts, CodePoint.scalar '/' ∉ t.label.name) :
    InOrder ((sorted ts).map (folded folder)) ↔ ¬SpoiledAmong folder ts := by
  have hne {t u : Tree} (ht : t ∈ ts) (hu : u ∈ ts) (htu : t ≠ u) :
      t.label.name ≠ u.label.name := fun h => htu (List.inj_on_of_nodup_map hnodup ht hu h)
  rw [InOrder, List.pairwise_map]
  constructor
  · rintro h ⟨t, ht, habsorbs, u, hu, hundercuts⟩
    have htu : t ≠ u := fun h => hundercuts.ne (h ▸ rfl)
    -- One of the two comes first, and it cannot be `u`.
    rcases rel_or_rel_of_pairwise ((pairwise_sorted ts).and h) (mem_sorted.2 ht) (mem_sorted.2 hu)
      htu with ⟨hle, hfolded⟩ | ⟨hle, -⟩
    · exact (name_folded_le_iff hle (hne ht hu htu) (hslash u hu)).1 hfolded ⟨habsorbs, hundercuts⟩
    · exact hne ht hu htu (Text.le_antisymm hundercuts.le hle)
  · intro h
    have hdistinct : (sorted ts).Nodup := (sorted_perm ts).nodup_iff.2 (hnodup.of_map _)
    refine ((pairwise_sorted ts).and hdistinct).imp_of_mem fun {t u} ht hu htu => ?_
    rw [mem_sorted] at ht hu
    refine (name_folded_le_iff htu.1 (hne ht hu htu.2) (hslash u hu)).2 fun hspoiled => h ?_
    exact ⟨t, ht, hspoiled.1, u, hu, hspoiled.2⟩

section Named

variable (ht : ∀ u ∈ t.subtrees, u.Named folder)
include ht

theorem named_below (hu : u ∈ t.children) : ∀ v ∈ u.subtrees, v.Named folder :=
  (forall_mem_subtrees_iff.1 ht).2 u hu

theorem named_absorbing (hi : t.label.icon = folder) (hu : u ∈ t.children) :
    ∀ v ∈ (t.absorbing u).subtrees, v.Named folder := by
  obtain ⟨hroot, hbelow⟩ := forall_mem_subtrees_iff.1 (named_below ht hu)
  exact forall_mem_subtrees_iff.2 ⟨⟨fun _ => hi, hroot.nodup, hroot.no_slash⟩, hbelow⟩

/-- Below a root that absorbs nothing, its children are sorted and merged. -/
theorem ordered_foldedBelow_of_forall (hi : t.label.icon = folder)
    (h : ∀ u ∈ t.children, (u.folded folder).Ordered folder ↔ ¬u.Spoiled folder) :
    (t.foldedBelow folder).Ordered folder ↔ ¬t.Spoiled folder := by
  obtain ⟨-, hnodup, hslash⟩ := ht t (mem_subtrees_self t)
  rw [ordered_iff, not_spoiled_iff, foldedBelow, label, children, imp_iff_right hi,
    inOrder_map_folded_iff hnodup hslash, List.forall_mem_map]
  simp only [mem_sorted]
  exact and_congr_right fun _ => forall₂_congr h

/-- Merging leaves an ordered tree if and only if no folder was among such siblings. -/
theorem ordered_folded_iff : (t.folded folder).Ordered folder ↔ ¬t.Spoiled folder := by
  induction t using folded.induct folder with
  | case1 t hi u hu ih =>
    have hchildren := (onlyFolder?_eq_some_iff.1 hu).1
    have hmem : u ∈ t.children := hchildren ▸ List.mem_singleton_self u
    rw [folded_of_onlyFolder?_eq_some hi hu, ih (named_absorbing ht hi hmem)]
    exact not_congr (spoiled_absorbing_iff hchildren)
  | case2 t hi hnone ih =>
    rw [folded_of_onlyFolder?_eq_none hi hnone]
    exact ordered_foldedBelow_of_forall ht hi fun u hu =>
      ih ⟨u, mem_sorted.2 hu⟩ (named_below ht hu)
  | case3 t hi =>
    have hleaf : t.children = [] := by
      by_contra hne
      exact hi ((ht t (mem_subtrees_self t)).icon_eq hne)
    rw [folded_of_ne hi, ordered_iff, not_spoiled_iff, hleaf]
    simp [SpoiledAmong, InOrder]

theorem ordered_foldedBelow_iff (hi : t.label.icon = folder) :
    (t.foldedBelow folder).Ordered folder ↔ ¬t.Spoiled folder :=
  ordered_foldedBelow_of_forall ht hi fun _ hu => ordered_folded_iff (named_below ht hu)

end Named

end Tree

end ReportTree
