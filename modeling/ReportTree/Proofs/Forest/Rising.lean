import ReportTree.Proofs.Forest.Ranked

/-!
# Rising forests

Where every node was made after the one that lists it, no way down is endless, and what is below a
node is a row. Merging keeps a forest rising, moving nodes does not.

* `Rising.ranked`: a rising forest is ranked.
* `Rising.exists_holds`: a coherent rising forest holds a row below each of its nodes.
* `Rising.grow`, `Rising.absorbOnlyChild`, `Rising.sortChildren`: changes that keep it rising.
-/

namespace ReportTree.Forest

/-- Every node was made after the one that lists it. -/
def Rising (f : Forest) : Prop := ∀ i, ∀ c ∈ f.children i, i < c

variable {f g : Forest} {i j a b c : NodeId}

/-- In a rising forest, a node has as many others after it as its rank says. -/
theorem Rising.ranked (hr : f.Rising) (hf : f.Coherent) : f.Ranked fun i => f.size - 1 - i where
  lt i c hc := by
    have hic := hr i c hc
    have hle : c ≤ f.size - 1 := Nat.le_sub_one_of_lt (hf.child_lt hc)
    exact Nat.sub_lt_sub_left (Nat.lt_of_lt_of_le hic hle) hic
  le i := Nat.sub_le ..

theorem Rising.exists_holds (hr : f.Rising) (hf : f.Coherent) (hi : i < f.size) :
    ∃ below : Row, f.Holds (.cons i below .nil) :=
  (hr.ranked hf).exists_holds hf hi

/-! ## Changes -/

/-- A forest that lists no more below any node is rising too. -/
theorem Rising.mono (hf : f.Rising) (hchildren : ∀ j, ∀ c ∈ g.children j, c ∈ f.children j) :
    g.Rising :=
  fun j c hc => hf j c (hchildren j c hc)

/-- A new node below `i` was made after it. -/
theorem Rising.grow (hf : f.Rising) (hi : i < f.size)
    (hchildren : ∀ j, g.children j = if i = j then f.children j ++ [f.size] else f.children j) :
    g.Rising := by
  intro j c hc
  rw [hchildren] at hc
  split at hc
  · next hij =>
    rcases List.mem_append.1 hc with hc | hc
    · exact hf j c hc
    · rw [List.mem_singleton.1 hc, ← hij]
      exact hi
  · exact hf j c hc

theorem Rising.sortChildren (hf : f.Rising) : (f.sortChildren i).Rising := by
  exact hf.mono fun j c hc => mem_children_sortChildren_iff.1 hc

/-- The children of an only child were made after it, so after `i`. -/
theorem Rising.absorbOnlyChild (hf : f.Rising) {sep : Text} :
    (f.absorbOnlyChild i sep).Rising := by
  rcases f.absorbOnlyChild_cases i sep with hsame | ⟨c, hc⟩
  · rw [hsame]
    exact hf
  · obtain ⟨-, -, hchildren, -⟩ := absorbOnlyChild_spec sep hc rfl
    have hic : i < c := hf i c (hc ▸ List.mem_singleton_self c)
    intro j d hd
    rw [hchildren] at hd
    split at hd
    · next hij => exact Nat.lt_trans (hij ▸ hic) (hf c d hd)
    · split at hd
      · cases hd
      · exact hf j d hd

end ReportTree.Forest
