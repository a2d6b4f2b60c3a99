import BtbuOs.Lib.Ring
import Mathlib.Data.BitVec

namespace FreeRunning

open Ring

variable {α : Type} {width size : Nat} {front back : BitVec width}

/-- The slots of a circular buffer from one free-running index up to another. -/
def span (data : Nat → α) (size : Nat) (front back : BitVec width) : List α := window data size front.toNat (back - front).toNat

@[simp] theorem span_length (data : Nat → α) (size : Nat) (front back : BitVec width) :
    (span data size front back).length = (back - front).toNat := window_length ..

@[simp] theorem span_self (data : Nat → α) (size : Nat) (front : BitVec width) : span data size front front = [] := by
  rw [span, BitVec.sub_self]
  rfl

/-- There are no slots between equal indices only. -/
theorem span_eq_nil_iff {data : Nat → α} : span data size front back = [] ↔ front = back := by
  constructor
  · intro empty
    have none : (back - front).toNat = 0 := by rw [← span_length data size, empty]; rfl
    have zero : back - front = 0 := BitVec.eq_of_toNat_eq none
    exact ((BitVec.sub_eq_iff_eq_add).mp zero |>.trans (BitVec.zero_add front)).symm
  · rintro rfl
    exact span_self data size front

/-- The size of the buffer divides the range of the indices, so that a wrap keeps the slots in order. -/
theorem slot_wrap (divides : size ∣ 2 ^ width) (front : BitVec width) (count : Nat) :
    (front.toNat + count) % size = (front + BitVec.ofNat width count).toNat % size := by
  rw [BitVec.toNat_add, BitVec.toNat_ofNat, Nat.add_mod_mod, Nat.mod_mod_of_dvd _ divides]

/-- The first slot of a span is the one of its front. -/
theorem span_pop (divides : size ∣ 2 ^ width) (data : Nat → α) (some : front ≠ back) :
    span data size front back = data (front.toNat % size) :: span data size (front + 1) back := by
  have positive : (back - front).toNat ≠ 0 := by
    intro zero
    rw [← span_length data size, List.length_eq_zero_iff] at zero
    exact some (span_eq_nil_iff.mp zero)
  have one : 1 < 2 ^ width := by
    have bound := (back - front).isLt
    omega
  have rest : (back - front).toNat = (back - (front + 1)).toNat + 1 := by
    have split : back - front = back - (front + 1) + 1 := by
      rw [← BitVec.sub_sub, BitVec.sub_add_cancel]
    have unit : (1 : BitVec width).toNat = 1 := by
      rw [BitVec.ofNat_eq_ofNat, BitVec.toNat_ofNat]
      exact Nat.mod_eq_of_lt one
    have bound := (back - (front + 1)).isLt
    rw [split, BitVec.toNat_add, unit] at positive ⊢
    rcases Nat.lt_or_ge ((back - (front + 1)).toNat + 1) (2 ^ width) with inside | last
    · exact Nat.mod_eq_of_lt inside
    · rw [show (back - (front + 1)).toNat + 1 = 2 ^ width by omega, Nat.mod_self] at positive
      exact absurd rfl positive
  rw [span, rest, window_cons, span]
  congr 1
  exact window_congr_front data size _ (slot_wrap divides front 1)

/-- A write to the slot behind a span that is not full makes the span longer by one. -/
theorem span_push (divides : size ∣ 2 ^ width) (small : size < 2 ^ width) (data : Nat → α) (room : (back - front).toNat < size) (value : α) :
    span (Function.update data (back.toNat % size) value) size front (back + 1) = span data size front back ++ [value] := by
  have place : back.toNat % size = (front.toNat + (back - front).toNat) % size := by
    rw [slot_wrap divides, BitVec.ofNat_toNat, BitVec.setWidth_eq, BitVec.add_comm, BitVec.sub_add_cancel]
  have one : 1 < 2 ^ width := by omega
  have unit : (1 : BitVec width).toNat = 1 := by
    rw [BitVec.ofNat_eq_ofNat, BitVec.toNat_ofNat]
    exact Nat.mod_eq_of_lt one
  have longer : (back + 1 - front).toNat = (back - front).toNat + 1 := by
    rw [BitVec.add_sub_comm, BitVec.toNat_add, unit]
    exact Nat.mod_eq_of_lt (Nat.lt_of_le_of_lt room small)
  rw [span, longer, place, window_push data room, span]

end FreeRunning
