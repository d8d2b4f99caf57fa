import ReportTree.Text.Blank
import ReportTree.Text.LetterCase

/-!
# Levels

How severe a node is. There are six levels, from `fatal` to `none`. A report writes a level as its
name and `none` as the empty text; outline markup marks four of the levels with one character.

* `Level.read_wireName`: what is written for a level is read as that level.
* `Level.read_eq_some_iff`: nothing else is read, but for the name of `none`.
-/

namespace ReportTree

/-- The severity of a node, the most severe first. -/
inductive Level where
  | fatal | error | warn | concern | info | none
  deriving DecidableEq, Repr, Inhabited

namespace Level

/-- All levels, the most severe first. -/
def all : List Level := [fatal, error, warn, concern, info, none]

/-- Levels are numbered by severity, the most severe is 0. -/
def rank : Level → Nat
  | fatal => 0
  | error => 1
  | warn => 2
  | concern => 3
  | info => 4
  | none => 5

/-- The name of a level. -/
def name : Level → Text
  | fatal => "fatal"
  | error => "error"
  | warn => "warn"
  | concern => "concern"
  | info => "info"
  | none => "none"

/-- The name of a level in capitals, as it stands in messages about nodes. -/
def capitalName : Level → Text
  | fatal => "FATAL"
  | error => "ERROR"
  | warn => "WARN"
  | concern => "CONCERN"
  | info => "INFO"
  | none => "NONE"

/-- `a` is strictly more severe than `b`. -/
def higher (a b : Level) : Bool := a.rank < b.rank

/-- `a` is at least as severe as `b`. -/
def atLeast (a b : Level) : Bool := a.rank ≤ b.rank

/-- The more severe of two levels. -/
def highest (a b : Level) : Level := if a.higher b then a else b

/-- The level that a character of outline markup marks. -/
def ofMarker? (c : CodePoint) : Option Level :=
  if c = '-' then some none
  else if c = '+' then some info
  else if c = '!' then some warn
  else if c = 'x' then some error
  else .none

/-- How a level is written in a report: by its name, `none` by nothing. -/
def wireName : Level → Text
  | none => ""
  | l => l.name

/-- The level with this name. -/
def ofName? (t : Text) : Option Level := all.find? fun l => l.name = t

/-- Reads a level as reports write it. -/
def read? (t : Text) : Option Level := if t.isEmpty then some none else ofName? t

/-- Reads a name that a user gave: blanks around it and letter case do not count. -/
def ofUserText? (t : Text) : Option Level := ofName? t.trim.smallLetters

/-- The level for the number of a log level, where 50 is critical, 40 error, 30 warning and 20
info. -/
def ofLogLevel (n : Int) : Level :=
  if n ≥ 50 then fatal
  else if n ≥ 40 then error
  else if n ≥ 30 then warn
  else if n ≥ 20 then info
  else none

/-! ## Order -/

theorem rank_inj {a b : Level} : a.rank = b.rank ↔ a = b := by
  cases a <;> cases b <;> decide

theorem atLeast_iff {a b : Level} : a.atLeast b = true ↔ a.rank ≤ b.rank := by simp [atLeast]

theorem higher_iff {a b : Level} : a.higher b = true ↔ a.rank < b.rank := by simp [higher]

theorem higher_self (a : Level) : a.higher a = false := by simp [higher]

theorem higher_none {a : Level} (h : a ≠ none) : a.higher none = true := by
  revert h
  cases a <;> decide

theorem atLeast_refl (a : Level) : a.atLeast a = true := atLeast_iff.2 (Nat.le_refl _)

theorem atLeast_trans {a b c : Level} (hab : a.atLeast b = true) (hbc : b.atLeast c = true) :
    a.atLeast c = true :=
  atLeast_iff.2 (Nat.le_trans (atLeast_iff.1 hab) (atLeast_iff.1 hbc))

theorem atLeast_of_higher {a b : Level} (h : a.higher b = true) : a.atLeast b = true :=
  atLeast_iff.2 (Nat.le_of_lt (higher_iff.1 h))

/-- Of two levels, one is at least as severe as the other. -/
theorem atLeast_of_not_higher {a b : Level} (h : ¬b.higher a = true) : a.atLeast b = true := by
  rw [higher_iff, Nat.not_lt] at h
  exact atLeast_iff.2 h

/-- Every level is at least as severe as none. -/
theorem atLeast_none (a : Level) : a.atLeast none = true := by cases a <;> decide

theorem rank_highest (a b : Level) : (highest a b).rank = min a.rank b.rank := by
  unfold highest
  split
  · next h => rw [Nat.min_eq_left (Nat.le_of_lt (higher_iff.1 h))]
  · next h => rw [Nat.min_eq_right (by simpa [higher] using h)]

/-- A level is known by the levels that it is at least as severe as. -/
theorem eq_of_atLeast_iff {a b : Level} (h : ∀ l, a.atLeast l = true ↔ b.atLeast l = true) :
    a = b := by
  have hab := atLeast_iff.1 ((h b).2 (atLeast_refl b))
  have hba := atLeast_iff.1 ((h a).1 (atLeast_refl a))
  exact rank_inj.1 (Nat.le_antisymm hab hba)

theorem highest_atLeast_iff {a b c : Level} :
    (highest a b).atLeast c = true ↔ a.atLeast c = true ∨ b.atLeast c = true := by
  rw [atLeast_iff, atLeast_iff, atLeast_iff, rank_highest]
  omega

/-- Only none is no more severe than none. -/
theorem none_atLeast_iff {a : Level} : none.atLeast a = true ↔ a = none := by
  cases a <;> decide

/-! ## Names -/

theorem read_wireName (l : Level) : read? l.wireName = some l := by cases l <;> decide

theorem read_eq_some_iff {t : Text} {l : Level} :
    read? t = some l ↔ t = l.wireName ∨ (t = none.name ∧ l = none) := by
  constructor
  · intro h
    unfold read? at h
    split at h
    · next he => cases h; exact .inl (List.isEmpty_iff.1 he)
    · have hn := List.find?_some h
      simp only [decide_eq_true_eq] at hn
      cases l
      case none => exact .inr ⟨hn.symm, rfl⟩
      all_goals exact .inl hn.symm
  · rintro (rfl | ⟨rfl, rfl⟩)
    · exact read_wireName l
    · decide

end Level

end ReportTree
