import Mathlib.Algebra.BigOperators.Fin
import Mathlib.Data.List.Basic
import Mathlib.Tactic.Common

namespace FirstLeast

variable {α : Type} (ready : α → Prop) (key : α → Nat)

/-- A preferred value is the first ready one of the smallest key. -/
structure Preferred (before : List α) (value : α) (rest : List α) : Prop where
  able : ready value
  first : ∀ other ∈ before, ready other → key value < key other
  minimal : ∀ other ∈ rest, ready other → key value ≤ key other

/-- One round of a scan keeps the position and the key of its best value. -/
def scanRound [DecidablePred ready] (best : Option Nat × Nat) (position : Nat) (value : α) : Option Nat × Nat :=
  if ready value then if key value < best.2 then (some position, key value) else best else best

/-- The state of a scan that started with a bound on the keys. -/
inductive Best (top : Nat) (seen : List α) : Option Nat × Nat → Prop where
  | none (above : ∀ value ∈ seen, ready value → top ≤ key value) : Best top seen (none, top)
  | some (before : List α) (value : α) (rest : List α) (split : seen = before ++ value :: rest)
      (preferred : Preferred ready key before value rest) (below : key value < top) :
      Best top seen (some before.length, key value)

variable {ready key}

/-- No split of a list has two preferred values. -/
theorem Preferred.unique {before others : List α} {value other : α} {rest tail : List α}
    (first : Preferred ready key before value rest) (second : Preferred ready key others other tail)
    (same : before ++ value :: rest = others ++ other :: tail) :
    before = others ∧ value = other ∧ rest = tail := by
  induction before generalizing others with
  | nil =>
      cases others with
      | nil => simpa using same
      | cons head others =>
          obtain ⟨rfl, rfl⟩ : value = head ∧ rest = others ++ other :: tail := by simpa using same
          have earlier := second.first value (by simp) first.able
          have later := first.minimal other (by simp) second.able
          omega
  | cons head before ih =>
      cases others with
      | nil =>
          obtain ⟨rfl, rfl⟩ : head = other ∧ before ++ value :: rest = tail := by simpa using same
          have earlier := first.first head (by simp) second.able
          have later := second.minimal value (by simp) first.able
          omega
      | cons front others =>
          obtain ⟨rfl, tails⟩ : head = front ∧ before ++ value :: rest = others ++ other :: tail := by simpa using same
          have shorter := ih ⟨first.able, fun v member => first.first v (by simp [member]), first.minimal⟩
            ⟨second.able, fun v member => second.first v (by simp [member]), second.minimal⟩ tails
          exact ⟨by rw [shorter.1], shorter.2⟩

/-- The preferred key bounds the key of every ready value. -/
theorem Preferred.le {before : List α} {value : α} {rest : List α} (preferred : Preferred ready key before value rest)
    {other : α} (member : other ∈ before ++ value :: rest) (use : ready other) : key value ≤ key other := by
  rcases List.mem_append.mp member with early | late
  · exact Nat.le_of_lt (preferred.first other early use)
  · rcases List.mem_cons.mp late with rfl | behind
    · exact Nat.le_refl _
    · exact preferred.minimal other behind use

/-- One more value moves the scan to its next state. -/
theorem Best.round [DecidablePred ready] {top : Nat} {seen : List α} {best : Option Nat × Nat}
    (state : Best ready key top seen best) (value : α) :
    Best ready key top (seen ++ [value]) (scanRound ready key best seen.length value) := by
  unfold scanRound
  cases state with
  | none above =>
      by_cases use : ready value
      · rw [if_pos use]
        split
        · rename_i lower
          apply Best.some seen value [] rfl _ lower
          refine ⟨use, fun other member use => ?_, fun other member => absurd member (by simp)⟩
          exact Nat.lt_of_lt_of_le lower (above other member use)
        · rename_i higher
          apply Best.none
          intro other member use
          rcases List.mem_append.mp member with early | late
          · exact above other early use
          · rw [List.mem_singleton.mp late]
            exact Nat.le_of_not_lt higher
      · rw [if_neg use]
        apply Best.none
        intro other member able
        rcases List.mem_append.mp member with early | late
        · exact above other early able
        · exact absurd (List.mem_singleton.mp late ▸ able) use
  | some before chosen rest split preferred below =>
      have kept (higher : ready value → key chosen ≤ key value) :
          Best ready key top (seen ++ [value]) (Option.some before.length, key chosen) := by
        apply Best.some before chosen (rest ++ [value]) (by simp [split]) _ below
        refine ⟨preferred.able, preferred.first, fun other member use => ?_⟩
        rcases List.mem_append.mp member with early | late
        · exact preferred.minimal other early use
        · rw [List.mem_singleton.mp late] at use ⊢
          exact higher use
      by_cases use : ready value
      · rw [if_pos use]
        split
        · rename_i lower
          apply Best.some seen value [] rfl _ (Nat.lt_trans lower below)
          refine ⟨use, fun other member use => ?_, fun other member => absurd member (by simp)⟩
          rw [split] at member
          exact Nat.lt_of_lt_of_le lower (preferred.le member use)
        · rename_i higher
          exact kept fun _ => Nat.le_of_not_lt higher
      · rw [if_neg use]
        exact kept fun able => absurd able use

end FirstLeast
