import Mathlib.Algebra.BigOperators.Fin
import Mathlib.Data.Int.GCD
import Mathlib.Data.Nat.ModEq
import Mathlib.Order.ConditionallyCompleteLattice.Basic
import Mathlib.Order.Lattice.Nat
import Mathlib.Tactic.Common
import Mathlib.Tactic.Ring

namespace Wrap

variable {n q a target : Nat}

/-- The largest number below the modulus that steps of this length reach. -/
def top (n q a : Nat) : Nat := n - Nat.gcd q n + a % Nat.gcd q n

/-- A number below the modulus is at most the largest one of its orbit. -/
theorem le_top (inside : a < n) : a ≤ top n q a := by
  obtain ⟨rounds, modulus⟩ : Nat.gcd q n ∣ n := Nat.gcd_dvd_right q n
  have split := Nat.div_add_mod a (Nat.gcd q n)
  have quotient : a / Nat.gcd q n < rounds := Nat.div_lt_of_lt_mul (Nat.lt_of_lt_of_eq inside modulus)
  obtain ⟨last, rfl⟩ := Nat.exists_eq_succ_of_ne_zero (Nat.ne_zero_of_lt quotient)
  have bound : Nat.gcd q n * (a / Nat.gcd q n) ≤ Nat.gcd q n * last := Nat.mul_le_mul_left _ (Nat.le_of_lt_succ quotient)
  rw [Nat.succ_eq_add_one, Nat.mul_add, Nat.mul_one] at modulus
  unfold top
  omega

theorem top_lt (positive : 0 < n) : top n q a < n := by
  have divides := Nat.gcd_pos_of_pos_right q positive
  have bound := Nat.gcd_le_right q positive
  have rest := Nat.mod_lt a divides
  unfold top
  omega

/-- A step stays in the orbit. -/
theorem top_step : top n q ((a + q) % n) = top n q a := by
  have residue : (a + q) % n % Nat.gcd q n = a % Nat.gcd q n := by
    rw [Nat.mod_mod_of_dvd _ (Nat.gcd_dvd_right q n), Nat.add_mod, Nat.mod_eq_zero_of_dvd (Nat.gcd_dvd_left q n),
      Nat.add_zero, Nat.mod_mod]
  rw [top, top, residue]

/-- Some multiple of the step is congruent to the greatest common divisor. -/
theorem exists_mul_modEq (positive : 0 < n) : ∃ count, q * count ≡ Nat.gcd q n [MOD n] := by
  by_cases small : Nat.gcd q n < n
  · obtain ⟨count, _, equal⟩ := Nat.exists_mul_mod_eq_gcd small
    exact ⟨count, by rw [Nat.ModEq, equal, Nat.mod_eq_of_lt small]⟩
  · have whole : Nat.gcd q n = n := Nat.le_antisymm (Nat.gcd_le_right q positive) (Nat.le_of_not_lt small)
    exact ⟨0, by rw [whole, Nat.ModEq, Nat.mul_zero, Nat.zero_mod, Nat.mod_self]⟩

/-- The steps reach the largest number of the orbit. -/
theorem reaches_top (inside : a < n) : ∃ count, (a + count * q) % n = top n q a := by
  have positive : 0 < n := by omega
  have above := le_top (q := q) inside
  have below := top_lt (q := q) (a := a) positive
  obtain ⟨unit, multiple⟩ := exists_mul_modEq (q := q) positive
  have congruent : a ≡ top n q a [MOD Nat.gcd q n] := by
    have last : n - Nat.gcd q n ≡ 0 [MOD Nat.gcd q n] :=
      Nat.modEq_zero_iff_dvd.mpr (Nat.dvd_sub (Nat.gcd_dvd_right q n) (Nat.dvd_refl _))
    have sum := last.add (Nat.mod_modEq a (Nat.gcd q n))
    rw [Nat.zero_add] at sum
    exact sum.symm
  obtain ⟨rounds, distance⟩ : Nat.gcd q n ∣ top n q a - a := (Nat.modEq_iff_dvd' above).mp congruent
  refine ⟨unit * rounds, ?_⟩
  have walked : a + unit * rounds * q ≡ top n q a [MOD n] :=
    calc a + unit * rounds * q = a + q * unit * rounds := by ring
      _ ≡ a + Nat.gcd q n * rounds [MOD n] := (multiple.mul_right rounds).add_left a
      _ = top n q a := by rw [← distance, Nat.add_sub_cancel' above]
  rw [walked, Nat.mod_eq_of_lt below]

/-- The number of steps until the target is reached or passed. -/
noncomputable def delay (n q a target : Nat) : Nat := sInf {count | target ≤ (a + count * q) % n}

/-- Each step below the target brings it nearer. -/
theorem delay_step (inside : a < n) (low : a < target) (reachable : target ≤ top n q a) :
    delay n q ((a + q) % n) target < delay n q a target := by
  have exists_count : {count | target ≤ (a + count * q) % n}.Nonempty := by
    obtain ⟨count, equal⟩ := reaches_top (q := q) inside
    exact ⟨count, by rw [Set.mem_ofPred_eq, equal]; exact reachable⟩
  have member : target ≤ (a + delay n q a target * q) % n := Nat.sInf_mem exists_count
  have positive : delay n q a target ≠ 0 := by
    intro zero
    rw [zero, Nat.zero_mul, Nat.add_zero, Nat.mod_eq_of_lt inside] at member
    omega
  obtain ⟨rest, count⟩ := Nat.exists_eq_succ_of_ne_zero positive
  have earlier : delay n q ((a + q) % n) target ≤ rest := by
    apply Nat.sInf_le
    rw [count] at member
    show target ≤ ((a + q) % n + rest * q) % n
    rw [Nat.mod_add_mod]
    have same : a + q + rest * q = a + (rest + 1) * q := by ring
    rwa [same]
  omega

end Wrap
