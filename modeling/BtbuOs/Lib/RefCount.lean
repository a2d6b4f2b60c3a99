import Mathlib.Algebra.BigOperators.Fin
import Mathlib.Data.Fintype.Card
import Mathlib.Tactic.Common

namespace RefCount

variable {Cell Object : Type} [Fintype Cell] [DecidableEq Object]

/-- The number of cells of a table that refer to an object. -/
def refs (table : Cell → Option Object) (object : Object) : Nat :=
  (Finset.univ.filter fun cell => table cell = some object).card

variable {table : Cell → Option Object}

/-- The count is positive exactly when some cell refers to the object. -/
theorem refs_pos {object : Object} : 0 < refs table object ↔ ∃ cell, table cell = some object := by
  unfold refs
  rw [Finset.card_pos]
  constructor
  · rintro ⟨cell, member⟩
    exact ⟨cell, (Finset.mem_filter_univ cell).mp member⟩
  · rintro ⟨cell, held⟩
    exact ⟨cell, (Finset.mem_filter_univ cell).mpr held⟩

theorem refs_eq_zero {object : Object} : refs table object = 0 ↔ ∀ cell, table cell ≠ some object := by
  have positive : 0 < refs table object ↔ ∃ cell, table cell = some object := refs_pos
  constructor
  · intro zero cell held
    have := positive.mpr ⟨cell, held⟩
    omega
  · intro absent
    by_contra nonzero
    obtain ⟨cell, held⟩ := positive.mp (by omega)
    exact absent cell held

/-- A table with fewer references counts no more of them. -/
theorem refs_mono {fewer : Cell → Option Object} {object : Object}
    (less : ∀ cell, fewer cell = some object → table cell = some object) : refs fewer object ≤ refs table object := by
  apply Finset.card_le_card
  intro cell member
  rw [Finset.mem_filter_univ] at member ⊢
  exact less cell member

variable {cell : Cell} [DecidableEq Cell]

/-- A reference written to an empty cell counts for its object alone. -/
theorem refs_set (empty : table cell = none) (object other : Object) :
    refs (Function.update table cell (some object)) other = refs table other + if other = object then 1 else 0 := by
  unfold refs
  by_cases same : other = object
  · subst same
    have grown : (Finset.univ.filter fun c => Function.update table cell (some other) c = some other) =
        insert cell (Finset.univ.filter fun c => table c = some other) := by
      ext c
      simp only [Finset.mem_insert, Finset.mem_filter_univ]
      by_cases own : c = cell
      · subst own
        simp
      · simp [own]
    rw [grown, Finset.card_insert_of_notMem (by simp [empty]), if_pos rfl]
  · rw [if_neg same, Nat.add_zero]
    congr 1
    ext c
    simp only [Finset.mem_filter_univ]
    by_cases own : c = cell
    · subst own
      simp [empty, Ne.symm same]
    · simp [own]

/-- A cell that is emptied gives back the reference that it held. -/
theorem refs_clear {object : Object} (held : table cell = some object) (other : Object) :
    refs (Function.update table cell none) other + (if other = object then 1 else 0) = refs table other := by
  have restored : Function.update (Function.update table cell none) cell (some object) = table := by
    rw [Function.update_idem, ← held, Function.update_eq_self]
  have counted := refs_set (Function.update_self cell none table) object other
  rw [restored] at counted
  exact counted.symm

end RefCount
