import Mathlib.Logic.Function.Basic

set_option autoImplicit false

/-! # Partial maps

Maps `f : α → Option β` of which one entry is set or removed. -/

namespace PartialMap

variable {α β : Type*} [DecidableEq α] {f : α → Option β} {a b : α} {x y : β}

/-- An entry is the one that was set, or an older one of another key. -/
theorem update_some_eq_some :
    Function.update f a (some x) b = some y ↔ b = a ∧ y = x ∨ b ≠ a ∧ f b = some y := by
  by_cases h : b = a
  · subst h
    rw [Function.update_self]
    simp [eq_comm]
  · rw [Function.update_of_ne h]
    simp [h]

theorem update_some_ne_none : Function.update f a (some x) b ≠ none ↔ b = a ∨ f b ≠ none := by
  by_cases h : b = a
  · subst h
    simp
  · rw [Function.update_of_ne h]
    simp [h]

theorem update_none_eq_some : Function.update f a none b = some y ↔ b ≠ a ∧ f b = some y := by
  by_cases h : b = a
  · subst h
    simp
  · rw [Function.update_of_ne h]
    simp [h]

/-- Setting an entry of a new key keeps the others. -/
theorem update_some_of_eq_none (hnew : f a = none) (hb : f b = some y) :
    Function.update f a (some x) b = some y := by
  refine update_some_eq_some.2 (Or.inr ⟨?_, hb⟩)
  rintro rfl
  simp [hnew] at hb

end PartialMap
