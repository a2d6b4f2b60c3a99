import Mathlib.Algebra.BigOperators.Fin
import Mathlib.Data.BitVec
import Mathlib.Tactic.Common

/-- A place in a buffer and a length that is counted modulo a power of two. -/
structure Slice (width : Nat) where
  start : Nat
  len : BitVec width
  deriving DecidableEq

namespace Slice

variable {width total count : Nat} {s : Slice width}

/-- The part behind a header. -/
def skip (s : Slice width) (count : Nat) : Slice width := ⟨s.start + count, s.len - BitVec.ofNat width count⟩

def Within (s : Slice width) (total : Nat) : Prop := s.start + s.len.toNat ≤ total

instance (s : Slice width) (total : Nat) : Decidable (s.Within total) := inferInstanceAs (Decidable (_ ≤ _))

theorem skip_len (fits : count ≤ s.len.toNat) : (s.skip count).len.toNat = s.len.toNat - count := by
  have bound := s.len.isLt
  rw [skip, BitVec.toNat_sub, BitVec.toNat_ofNat, Nat.mod_eq_of_lt (by omega : count < 2 ^ width)]
  rw [show 2 ^ width - count + s.len.toNat = s.len.toNat - count + 2 ^ width by omega, Nat.add_mod_right]
  exact Nat.mod_eq_of_lt (by omega)

/-- The part behind a header stays within a buffer exactly when the header fits in the slice. -/
theorem skip_within_iff (inside : s.Within total) (small : total < 2 ^ width) (header : count < 2 ^ width) :
    (s.skip count).Within total ↔ count ≤ s.len.toNat := by
  unfold Within at inside ⊢
  constructor
  · intro within
    by_contra long
    have wrapped : (s.skip count).len.toNat = 2 ^ width - count + s.len.toNat := by
      rw [skip, BitVec.toNat_sub, BitVec.toNat_ofNat, Nat.mod_eq_of_lt header]
      exact Nat.mod_eq_of_lt (by omega)
    rw [wrapped, skip] at within
    dsimp only at within
    omega
  · intro fits
    rw [skip_len fits, skip]
    dsimp only
    omega

end Slice
