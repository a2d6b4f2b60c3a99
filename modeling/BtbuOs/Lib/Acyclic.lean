import Mathlib.Algebra.BigOperators.Fin
import Mathlib.Logic.Relation
import Mathlib.Tactic.Common

open Relation

variable {α : Type}

/-- No element reaches itself in one or more edges. -/
def Acyclic (edge : α → α → Prop) : Prop := ∀ a, ¬TransGen edge a a

namespace Acyclic

/-- Only edges whose target has an edge of its own can lie on a cycle. -/
theorem shrink {edge smaller : α → α → Prop} (acyclic : Acyclic edge)
    (old : ∀ x y, smaller x y → (∃ z, smaller y z) → edge x y) : Acyclic smaller := by
  intro a cycle
  have lift {x : α} (path : TransGen smaller x a) : TransGen edge x a := by
    have onward : ∃ z, smaller a z := by
      rw [TransGen.head'_iff] at cycle
      obtain ⟨z, first, _⟩ := cycle
      exact ⟨z, first⟩
    induction path using TransGen.head_induction_on with
    | single last => exact .single (old _ _ last onward)
    | head first rest ih =>
        obtain ⟨z, next, _⟩ := TransGen.head'_iff.mp rest
        exact .head (old _ _ first ⟨z, next⟩) ih
  exact acyclic a (lift cycle)

/-- New edges out of one element close no cycle when their targets do not lead back to it. -/
theorem grow {edge larger : α → α → Prop} (acyclic : Acyclic edge) (source : α) (target : α → Prop)
    (only : ∀ x y, larger x y → edge x y ∨ x = source ∧ target y)
    (away : ∀ y, target y → ¬ReflTransGen edge y source) : Acyclic larger := by
  have split {x z : α} (path : TransGen larger x z) : TransGen edge x z ∨
      ReflTransGen edge x source ∧ ∃ y, target y ∧ ReflTransGen edge y z := by
    induction path with
    | single last =>
        rcases only _ _ last with old | ⟨rfl, new⟩
        · exact Or.inl (.single old)
        · exact Or.inr ⟨.refl, _, new, .refl⟩
    | tail _ last ih =>
        rcases only _ _ last with old | ⟨rfl, new⟩
        · rcases ih with path | ⟨before, y, present, path⟩
          · exact Or.inl (path.tail old)
          · exact Or.inr ⟨before, y, present, path.tail old⟩
        · rcases ih with path | ⟨before, _⟩
          · exact Or.inr ⟨path.to_reflTransGen, _, new, .refl⟩
          · exact Or.inr ⟨before, _, new, .refl⟩
  intro a cycle
  rcases split cycle with path | ⟨before, y, present, path⟩
  · exact acyclic a path
  · exact away y present (path.trans before)

end Acyclic
