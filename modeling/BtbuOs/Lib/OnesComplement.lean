import Mathlib.Algebra.BigOperators.Fin
import Mathlib.Data.List.Basic
import Mathlib.Tactic.Ring

namespace OnesComplement

/-- The largest word of a width. -/
def ones (w : Nat) : Nat := 2 ^ w - 1

/-- The carry of a sum is added at its other end. -/
def add (w a b : Nat) : Nat := if a + b < 2 ^ w then a + b else a + b - ones w

/-- The sum of words, one after the other. -/
def sum (w : Nat) (words : List Nat) : Nat := words.foldl (add w) 0

/-- One round adds the carries of a plain sum to its low word. -/
def round (w s : Nat) : Nat := s % 2 ^ w + s / 2 ^ w

/-- The word of a plain sum, which is zero for zero only. -/
def reduce (w s : Nat) : Nat := if s = 0 then 0 else (s - 1) % ones w + 1

variable {w s t a b k : Nat} {words : List Nat}

theorem ones_add_one (w : Nat) : ones w + 1 = 2 ^ w := Nat.sub_add_cancel Nat.one_le_two_pow

theorem ones_pos (positive : 0 < w) : 0 < ones w := Nat.sub_pos_of_lt (Nat.one_lt_two_pow (by omega))

theorem reduce_eq_zero : reduce w s = 0 ↔ s = 0 := by
  rw [reduce]
  split
  · rename_i zero
    exact iff_of_true rfl zero
  · rename_i positive
    exact iff_of_false (Nat.succ_ne_zero _) positive

theorem reduce_le (positive : 0 < w) (s : Nat) : reduce w s ≤ ones w := by
  rw [reduce]
  split
  · exact Nat.zero_le _
  · exact Nat.mod_lt _ (ones_pos positive)

@[simp] theorem reduce_of_lt (small : s < 2 ^ w) : reduce w s = s := by
  have top := ones_add_one w
  rw [reduce]
  split
  · rename_i zero
    exact zero.symm
  · rw [Nat.mod_eq_of_lt (by omega)]
    omega

/-- The largest word is another zero. -/
theorem reduce_add_mul (positive : 0 < s) : reduce w (s + ones w * k) = reduce w s := by
  have shift : s + ones w * k - 1 = s - 1 + ones w * k := by omega
  rw [reduce, reduce, if_neg (by omega), if_neg (by omega), shift, Nat.add_mul_mod_self_left]

theorem round_add (w s : Nat) : round w s + ones w * (s / 2 ^ w) = s := by
  have top := ones_add_one w
  calc round w s + ones w * (s / 2 ^ w) = s % 2 ^ w + (ones w + 1) * (s / 2 ^ w) := by rw [round]; ring
    _ = s % 2 ^ w + 2 ^ w * (s / 2 ^ w) := by rw [top]
    _ = s := Nat.mod_add_div s (2 ^ w)

/-- A round keeps the word of the sum. -/
theorem reduce_round (w s : Nat) : reduce w (round w s) = reduce w s := by
  have whole := round_add w s
  cases zero : round w s with
  | zero =>
      rw [round, Nat.add_eq_zero_iff] at zero
      obtain ⟨low, high⟩ := zero
      rw [← whole, high, Nat.mul_zero, Nat.add_zero, round, low, high]
  | succ n =>
      rw [← zero]
      conv_rhs => rw [← whole]
      exact (reduce_add_mul (by omega)).symm

/-- A word replaces the plain sum that it stands for. -/
theorem reduce_reduce_add (w s t : Nat) : reduce w (reduce w s + t) = reduce w (s + t) := by
  cases s with
  | zero => rfl
  | succ s =>
      have split : s + 1 + t = reduce w (s + 1) + t + ones w * (s / ones w) := by
        have parts := Nat.mod_add_div s (ones w)
        rw [reduce, if_neg (Nat.succ_ne_zero s), Nat.add_sub_cancel]
        omega
      have positive : 0 < reduce w (s + 1) := Nat.pos_of_ne_zero (reduce_eq_zero.not.mpr (Nat.succ_ne_zero s))
      rw [split, reduce_add_mul (by omega)]

theorem add_eq (first : a < 2 ^ w) (second : b < 2 ^ w) : add w a b = reduce w (a + b) := by
  have top := ones_add_one w
  rw [add]
  split
  · rename_i small
    exact (reduce_of_lt small).symm
  · rename_i carry
    have whole : a + b = a + b - ones w + ones w * 1 := by omega
    conv_rhs => rw [whole]
    rw [reduce_add_mul (by omega), reduce_of_lt (by omega)]

theorem sum_append (w : Nat) (first second : List Nat) : sum w (first ++ second) = second.foldl (add w) (sum w first) :=
  List.foldl_append ..

theorem sum_cons (small : a < 2 ^ w) : sum w (a :: words) = words.foldl (add w) a := by
  have first : add w 0 a = a := by rw [add, Nat.zero_add, if_pos small]
  rw [sum, List.foldl_cons, first]

/-- The carries may all be added at the end. -/
theorem sum_eq (positive : 0 < w) (bounded : ∀ a ∈ words, a < 2 ^ w) : sum w words = reduce w words.sum := by
  have top := ones_add_one w
  have run (start : Nat) : words.foldl (add w) (reduce w start) = reduce w (start + words.sum) := by
    induction words generalizing start with
    | nil => rfl
    | cons a words ih =>
        have below := reduce_le positive start
        have head := bounded a List.mem_cons_self
        rw [List.foldl_cons, add_eq (by omega) head, reduce_reduce_add, List.sum_cons, ← Nat.add_assoc]
        exact ih (fun b listed => bounded b (List.mem_cons_of_mem a listed)) (start + a)
  exact (run 0).trans (by rw [Nat.zero_add])

/-- A sum with its complement has ones only. -/
theorem reduce_complement (positive : 0 < w) (s : Nat) : reduce w (s + (ones w - reduce w s)) = ones w := by
  have below := reduce_le positive s
  have top := ones_add_one w
  rw [← reduce_reduce_add, Nat.add_sub_cancel' below, reduce_of_lt (by omega)]

end OnesComplement
