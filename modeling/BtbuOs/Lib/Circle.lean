import Mathlib.Algebra.BigOperators.Fin
import Mathlib.Tactic.Common

namespace Circle

variable {w n : Nat} {a b x : BitVec w}

/-- The number is one of the first `n` from another one on, around the circle. -/
def Within (a : BitVec w) (n : Nat) (x : BitVec w) : Prop := (x - a).toNat < n

/-- The number lies between two others or is one of them, around the circle. -/
def UpTo (a b x : BitVec w) : Prop := x - a ≤ b - a

/-- The number lies between two others or is the last one, around the circle. -/
def After (a b x : BitVec w) : Prop := x ≠ a ∧ UpTo a b x

instance : Decidable (Within a n x) := inferInstanceAs (Decidable (_ < _))

instance : Decidable (UpTo a b x) := inferInstanceAs (Decidable (_ ≤ _))

instance : Decidable (After a b x) := inferInstanceAs (Decidable (_ ∧ _))

/-- The numbers of a range are reached by steps of one. -/
theorem within_iff (inside : n ≤ 2 ^ w) : Within a n x ↔ ∃ k, k < n ∧ x = a + BitVec.ofNat w k := by
  constructor
  · intro within
    refine ⟨(x - a).toNat, within, ?_⟩
    rw [BitVec.ofNat_toNat, BitVec.setWidth_eq, BitVec.add_comm, BitVec.sub_add_cancel]
  · rintro ⟨k, below, rfl⟩
    rw [Within, BitVec.add_comm, BitVec.add_sub_cancel, BitVec.toNat_ofNat, Nat.mod_eq_of_lt (by omega)]
    exact below

/-- A range from one number to another holds the steps up to their distance. -/
theorem upTo_iff : UpTo a b x ↔ Within a ((b - a).toNat + 1) x := by
  rw [UpTo, Within, BitVec.le_def, Nat.lt_succ_iff]

/-- The distance around the circle is the difference, or passes zero. -/
theorem toNat_sub (x a : BitVec w) :
    a ≤ x ∧ (x - a).toNat = x.toNat - a.toNat ∨ x < a ∧ (x - a).toNat = 2 ^ w - (a.toNat - x.toNat) := by
  by_cases order : a ≤ x
  · exact Or.inl ⟨order, BitVec.toNat_sub_of_le order⟩
  · exact Or.inr ⟨BitVec.not_le.mp order, BitVec.toNat_sub_of_lt (BitVec.not_le.mp order)⟩

/-- Unsigned comparisons with the ends of a range agree with the range exactly where its end does not pass zero. -/
theorem within_unsigned (small : n < 2 ^ w) :
    a ≤ x ∧ x < a + BitVec.ofNat w n ↔ Within a n x ∧ a.toNat + n < 2 ^ w := by
  have start := a.isLt
  have number := x.isLt
  have sum : (a + BitVec.ofNat w n).toNat = if a.toNat + n < 2 ^ w then a.toNat + n else a.toNat + n - 2 ^ w := by
    rw [BitVec.toNat_add, BitVec.toNat_ofNat, Nat.mod_eq_of_lt small]
    split
    · rename_i below
      exact Nat.mod_eq_of_lt below
    · rename_i wraps
      rw [Nat.mod_eq_sub_mod (by omega), Nat.mod_eq_of_lt (by omega)]
  have distance := toNat_sub x a
  rw [BitVec.le_def] at distance ⊢
  rw [BitVec.lt_def] at distance ⊢
  rw [sum, Within]
  split
  · omega
  · omega

theorem upTo_unsigned : a ≤ x ∧ x ≤ b ↔ UpTo a b x ∧ a ≤ b := by
  have start := a.isLt
  have last := b.isLt
  have number := toNat_sub x a
  have distance := toNat_sub b a
  simp only [UpTo, BitVec.le_def, BitVec.lt_def] at number distance ⊢
  omega

theorem after_unsigned : a < x ∧ x ≤ b ↔ After a b x ∧ a ≤ b := by
  have strict : a < x ↔ x ≠ a ∧ a ≤ x := by
    rw [BitVec.lt_def, BitVec.le_def, ne_eq, BitVec.toNat_eq]
    omega
  rw [strict, After, and_assoc, and_assoc, upTo_unsigned]

/-- A comparison that agrees with a range up to zero is exact where nothing passes zero or the number lies outside. -/
theorem exact_iff {plain circle straight : Prop} (agrees : plain ↔ circle ∧ straight) :
    (plain ↔ circle) ↔ (circle → straight) := by
  rw [agrees]
  exact and_iff_left_iff_imp

end Circle
