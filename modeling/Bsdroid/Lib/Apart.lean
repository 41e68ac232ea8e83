import Mathlib.Logic.Function.Basic
import Mathlib.Data.Option.Basic

/-!
# Partial functions that tell their arguments apart

A partial function is `Apart` when no two arguments have one value.  It stays so when it forgets
values, and when one argument changes its value to one that no other has.
-/

variable {α β : Type*}

/-- No two arguments have one value. -/
def Apart (f : α → Option β) : Prop := ∀ a a' b, f a = some b → f a' = some b → a = a'

namespace Apart

variable {f g : α → Option β}

/-- Fewer values. -/
theorem of_less (h : Apart f) (hless : ∀ a, g a = none ∨ g a = f a) : Apart g := by
  have hback : ∀ a b, g a = some b → f a = some b := by
    intro a b hb
    rcases hless a with hnone | hsame
    · rw [hnone] at hb
      cases hb
    · exact hsame ▸ hb
  intro a a' b ha ha'
  exact h a a' b (hback a b ha) (hback a' b ha')

/-- Another value of one argument, which no other argument has. -/
theorem of_but_one (h : Apart f) (a₀ : α) (hless : ∀ a, a ≠ a₀ → g a = none ∨ g a = f a)
    (hfree : ∀ a b, g a = some b → g a₀ = some b → a = a₀) : Apart g := by
  have hback : ∀ a b, a ≠ a₀ → g a = some b → f a = some b := by
    intro a b hne hb
    rcases hless a hne with hnone | hsame
    · rw [hnone] at hb
      cases hb
    · exact hsame ▸ hb
  intro a a' b ha ha'
  by_cases hone : a = a₀
  · exact hone.trans (hfree a' b ha' (hone ▸ ha)).symm
  · by_cases hother : a' = a₀
    · exact (hfree a b ha (hother ▸ ha')).trans hother.symm
    · exact h a a' b (hback a b hone ha) (hback a' b hother ha')

end Apart
