/-
# Lines of a page

In a layout whose arithmetic is exact and whose boxes have a height, the line that the next node stands on only moves
down.  `Drops` says so of two lines, and says nothing of other layouts.
-/
import AlgoLang.Flow.Draw
import Mathlib

namespace AlgoLang.Flow.Layout

open Rounding

variable {l : Layout} {y y' y'' : Position} {i j : Int}

/-- The arithmetic is exact, all boxes have a height, and there are no gaps below zero. -/
structure Upright (l : Layout) : Prop where
  exact : l.rounding = .exact
  node : 0 < l.nodeHeight
  decision : 0 < l.decisionHeight
  merge : 0 < l.mergeSize
  gap : 0 ≤ l.verticalGap

/-- If the layout is upright, both are finite, and from the first to the second it is `i` halves down or more. -/
def Drops (l : Layout) (i : Int) (y y' : Position) : Prop :=
  l.Upright → ∃ a b, y = .halves a ∧ y' = .halves b ∧ a + i ≤ b

lemma Upright.add_halves (h : l.Upright) (a b : Int) : l.add (.halves a) (.halves b) = .halves (a + b) := by
  simp [add, h.exact, Rounding.round, Rounding.halves, reaches, nearest, Position.add]

lemma Upright.units_eq (h : l.Upright) (n : Int) : l.units n = .halves (2 * n) := by
  simp [units, halves, h.exact, Rounding.halves, reaches, nearest]

namespace Drops

lemma trans (h : l.Drops i y y') (h' : l.Drops j y' y'') : l.Drops (i + j) y y'' := by
  intro hl
  obtain ⟨a, b, rfl, rfl, hab⟩ := h hl
  obtain ⟨_, c, ⟨⟩, rfl, hbc⟩ := h' hl
  exact ⟨a, c, rfl, rfl, by omega⟩

lemma finite (h : l.Drops i y y') : l.Drops 0 y' y' := by
  intro hl
  obtain ⟨-, b, -, rfl, -⟩ := h hl
  exact ⟨b, b, rfl, rfl, by omega⟩

lemma mono (h : l.Drops i y y') (hj : j ≤ i) : l.Drops j y y' := by
  intro hl
  obtain ⟨a, b, rfl, rfl, hab⟩ := h hl
  exact ⟨a, b, rfl, rfl, by omega⟩

lemma max (h : l.Drops 0 y y') (h' : l.Drops 0 y y'') : l.Drops 0 y' (y'.max y'') ∧ l.Drops 0 y'' (y'.max y'') := by
  constructor
  all_goals
    intro hl
    obtain ⟨-, a, -, rfl, -⟩ := h hl
    obtain ⟨-, b, -, rfl, -⟩ := h' hl
    by_cases hab : a < b <;> simp [Position.max, Position.before, hab]
    omega

end Drops

end AlgoLang.Flow.Layout
