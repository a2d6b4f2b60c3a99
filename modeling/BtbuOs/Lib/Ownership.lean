import Mathlib.Algebra.BigOperators.Fin
import Mathlib.Logic.Function.Basic
import Mathlib.Tactic.Common

namespace Ownership

variable {Place : Type}

/-- The units from `low` to `high` are handed out to places; a place with zero has none, and the units below `low` are never free. -/
structure Owned (low high : Nat) (used : Nat → Bool) (pointer : Place → Nat) : Prop where
  positive : 0 < low
  apart : ∀ p q, pointer p ≠ 0 → pointer p = pointer q → p = q
  above : ∀ p, pointer p ≠ 0 → low ≤ pointer p
  below : ∀ p, pointer p ≠ 0 → pointer p < high
  marked : ∀ p, pointer p ≠ 0 → used (pointer p) = true
  reserved : ∀ unit, unit < low → unit < high → used unit = true

namespace Owned

variable {low high unit : Nat} {used after : Nat → Bool} {pointer later : Place → Nat} {place : Place}

theorem le_of_free (owned : Owned low high used pointer) (free : used unit = false) (inside : unit < high) : low ≤ unit := by
  by_contra small
  have reserved := owned.reserved unit (Nat.not_le.mp small) inside
  rw [free] at reserved
  exact Bool.false_ne_true reserved

/-- A free unit belongs to no place. -/
theorem ne_of_free (owned : Owned low high used pointer) (free : used unit = false) (inside : unit < high) (p : Place) :
    pointer p ≠ unit := by
  intro same
  have least := owned.le_of_free free inside
  have positive := owned.positive
  have marked := owned.marked p (by omega)
  rw [same, free] at marked
  exact Bool.false_ne_true marked

/-- A unit that no place has goes to an empty place. -/
theorem assign (owned : Owned low high used pointer) (fresh : ∀ p, pointer p ≠ unit) (least : low ≤ unit) (inside : unit < high)
    (marked : used unit = true) (given : later place = unit) (others : ∀ p, p ≠ place → later p = pointer p) :
    Owned low high used later := by
  have cases (p : Place) : p = place ∧ later p = unit ∨ p ≠ place ∧ later p = pointer p := by
    by_cases own : p = place
    · exact Or.inl ⟨own, own ▸ given⟩
    · exact Or.inr ⟨own, others p own⟩
  constructor
  · exact owned.positive
  · intro p q nonzero same
    rcases cases p with ⟨own, first⟩ | ⟨own, first⟩ <;> rcases cases q with ⟨other, second⟩ | ⟨other, second⟩
    · rw [own, other]
    · rw [first, second] at same
      exact absurd same.symm (fresh q)
    · rw [first, second] at same
      exact absurd same (fresh p)
    · rw [first, second] at same
      exact owned.apart p q (by rwa [first] at nonzero) same
  · intro p nonzero
    rcases cases p with ⟨own, first⟩ | ⟨own, first⟩
    · rwa [first]
    · rw [first] at nonzero ⊢
      exact owned.above p nonzero
  · intro p nonzero
    rcases cases p with ⟨own, first⟩ | ⟨own, first⟩
    · rwa [first]
    · rw [first] at nonzero ⊢
      exact owned.below p nonzero
  · intro p nonzero
    rcases cases p with ⟨own, first⟩ | ⟨own, first⟩
    · rwa [first]
    · rw [first] at nonzero ⊢
      exact owned.marked p nonzero
  · exact owned.reserved

/-- Places give up their units, and the units that are still there stay marked. -/
theorem shrink (owned : Owned low high used pointer) (fewer : ∀ p, later p ≠ 0 → later p = pointer p)
    (kept : ∀ p, later p ≠ 0 → used (later p) = true → after (later p) = true)
    (reserved : ∀ b, b < low → b < high → used b = true → after b = true) : Owned low high after later := by
  constructor
  · exact owned.positive
  · intro p q nonzero same
    have first := fewer p nonzero
    have second := fewer q (by rwa [← same])
    rw [first, second] at same
    exact owned.apart p q (by rwa [first] at nonzero) same
  · intro p nonzero
    have first := fewer p nonzero
    rw [first] at nonzero ⊢
    exact owned.above p nonzero
  · intro p nonzero
    have first := fewer p nonzero
    rw [first] at nonzero ⊢
    exact owned.below p nonzero
  · intro p nonzero
    apply kept p nonzero
    have same := fewer p nonzero
    rw [same] at nonzero ⊢
    exact owned.marked p nonzero
  · intro b small below
    exact reserved b small below (owned.reserved b small below)

/-- The ownership stays when the places do not change and no mark is lost. -/
theorem congr (owned : Owned low high used pointer) (pointers : ∀ p, later p = pointer p)
    (marks : ∀ b, b < high → used b = true → after b = true) : Owned low high after later := by
  apply owned.shrink
  · exact fun p _ => pointers p
  · intro p nonzero
    rw [pointers p] at nonzero ⊢
    exact marks _ (owned.below p nonzero)
  · exact fun b _ below => marks b below

end Owned

end Ownership
