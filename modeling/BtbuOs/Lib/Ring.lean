import Mathlib.Algebra.BigOperators.Fin
import Mathlib.Data.List.Basic
import Mathlib.Logic.Function.Basic
import Mathlib.Tactic.Common

namespace Ring

variable {α : Type}

/-- The window lists the slots of a circular buffer from the front in queue order. -/
def window (data : Nat → α) (size front count : Nat) : List α :=
  (List.range count).map fun offset => data ((front + offset) % size)

@[simp] theorem window_zero (data : Nat → α) (size front : Nat) :
    window data size front 0 = [] := rfl

@[simp] theorem window_length (data : Nat → α) (size front count : Nat) :
    (window data size front count).length = count := by
  simp [window]

@[simp] theorem window_getElem (data : Nat → α) (size front count : Nat) (index : Nat)
    (inside : index < (window data size front count).length) :
    (window data size front count)[index] = data ((front + index) % size) := by
  simp [window]

/-- The last slot of a longer window is the next slot after the shorter one. -/
theorem window_snoc (data : Nat → α) (size front count : Nat) :
    window data size front (count + 1) =
      window data size front count ++ [data ((front + count) % size)] := by
  simp [window, List.range_succ]

/-- A window splits after any number of slots. -/
theorem window_append (data : Nat → α) (size front first second : Nat) :
    window data size front (first + second) =
      window data size front first ++ window data size (front + first) second := by
  induction second with
  | zero => simp
  | succ second ih =>
      rw [← Nat.add_assoc, window_snoc, ih, window_snoc, List.append_assoc, Nat.add_assoc]

/-- The first slot of a nonempty window is the front slot. -/
theorem window_cons (data : Nat → α) (size front count : Nat) :
    window data size front (count + 1) =
      data (front % size) :: window data size (front + 1) count := by
  rw [Nat.add_comm count 1, window_append]
  rfl

/-- Only the residue of the front matters. -/
theorem window_mod (data : Nat → α) (size front count : Nat) :
    window data size (front % size) count = window data size front count := by
  simp [window, Nat.mod_add_mod]

/-- Fronts with the same residue give the same window. -/
theorem window_congr_front (data : Nat → α) (size count : Nat) {first second : Nat}
    (same : first % size = second % size) :
    window data size first count = window data size second count := by
  rw [← window_mod data size first, same, window_mod]

/-- A window depends only on its own slots. -/
theorem window_congr {first second : Nat → α} {size front count : Nat}
    (agree : ∀ offset, offset < count →
      first ((front + offset) % size) = second ((front + offset) % size)) :
    window first size front count = window second size front count := by
  apply List.map_congr_left
  intro offset inside
  exact agree offset (List.mem_range.mp inside)

/-- The slot after the last one is the first. -/
theorem succ_slot {size slot : Nat} (inside : slot < size) :
    (slot + 1) % size = if slot + 1 = size then 0 else slot + 1 := by
  split
  · rename_i last
    rw [last, Nat.mod_self]
  · exact Nat.mod_eq_of_lt (by omega)

/-- Two offsets of one round reach different slots. -/
theorem slot_ne {size front first second : Nat} (different : first < second)
    (round : second < first + size) : (front + first) % size ≠ (front + second) % size := by
  intro same
  have divides : size ∣ (front + second) - (front + first) :=
    Nat.dvd_of_mod_eq_zero (Nat.sub_mod_eq_zero_of_mod_eq same.symm)
  have apart : (front + second) - (front + first) = second - first := by omega
  rw [apart] at divides
  have := Nat.le_of_dvd (by omega) divides
  omega

/-- A write to the slot after a window that is not full leaves the window unchanged. -/
theorem window_update_tail [DecidableEq Nat] (data : Nat → α) {size front count : Nat}
    (room : count < size) (value : α) :
    window (Function.update data ((front + count) % size) value) size front count =
      window data size front count := by
  apply window_congr
  intro offset inside
  exact Function.update_of_ne (slot_ne inside (by omega)) _ _

/-- A write to the slot after the window appends the value. -/
theorem window_push (data : Nat → α) {size front count : Nat} (room : count < size) (value : α) :
    window (Function.update data ((front + count) % size) value) size front (count + 1) =
      window data size front count ++ [value] := by
  rw [window_snoc, window_update_tail data room, Function.update_self]

/-- This function stores a run of values in consecutive slots that do not wrap. -/
def blit (data : Nat → α) (start : Nat) (values : List α) : Nat → α := fun slot =>
  if start ≤ slot then (values[slot - start]?).getD (data slot) else data slot

@[simp] theorem blit_nil (data : Nat → α) (start : Nat) : blit data start [] = data := by
  funext slot
  simp [blit]

/-- A slot outside the run keeps its value. -/
theorem blit_outside (data : Nat → α) (start : Nat) (values : List α) {slot : Nat}
    (outside : slot < start ∨ start + values.length ≤ slot) : blit data start values slot = data slot := by
  unfold blit
  split
  · rw [List.getElem?_eq_none (by omega)]
    rfl
  · rfl

/-- A slot inside the run holds the stored value. -/
theorem blit_inside (data : Nat → α) (start : Nat) (values : List α) {offset : Nat}
    (inside : offset < values.length) : blit data start values (start + offset) = values[offset] := by
  simp [blit, inside]

/-- An offset that does not wrap is added to the slot of the front. -/
theorem slot_add {size : Nat} (front : Nat) {offset : Nat} (flat : front % size + offset < size) :
    (front + offset) % size = front % size + offset := by
  rw [← Nat.mod_add_mod, Nat.mod_eq_of_lt flat]

/-- A run of values stored after the window without wrapping extends the window by these values. -/
theorem window_blit (data : Nat → α) {size front count : Nat} (values : List α)
    (room : count + values.length ≤ size)
    (flat : (front + count) % size + values.length ≤ size) :
    window (blit data ((front + count) % size) values) size front (count + values.length) =
      window data size front count ++ values := by
  rw [window_append]
  congr 1
  · apply window_congr
    intro offset inside
    apply blit_outside
    by_cases empty : values.length = 0
    · omega
    have modulus : (front + offset) % size < size := Nat.mod_lt _ (by omega)
    by_contra within
    obtain ⟨shift, position⟩ : ∃ shift, (front + offset) % size = (front + count) % size + shift :=
      ⟨_, (Nat.add_sub_cancel' (by omega)).symm⟩
    have same : (front + offset) % size = (front + (count + shift)) % size := by
      rw [← Nat.add_assoc, slot_add (front + count) (by omega), position]
    exact slot_ne (by omega) (by omega) same
  · apply List.ext_getElem
    · simp
    · intro index _ inside
      rw [window_getElem]
      rw [slot_add (front + count) (by omega), blit_inside data _ values inside]

/-- This loop moves each slot from the given one up to the last one back by one place. -/
def shift (data : Nat → α) (size last : Nat) : Nat → Nat → Nat → α
  | 0, _ => data
  | rounds + 1, slot =>
      if slot = last then data
      else shift (Function.update data slot (data ((slot + 1) % size))) size last rounds ((slot + 1) % size)

/-- A write to one slot of the window replaces one value. -/
theorem window_set (data : Nat → α) {size front count index : Nat} (inside : index < count) (fits : count ≤ size)
    (value : α) : window (Function.update data ((front + index) % size) value) size front count =
      (window data size front count).set index value := by
  apply List.ext_getElem
  · simp
  · intro position first second
    rw [window_getElem, List.getElem_set, window_getElem]
    rw [window_length] at first
    split
    · rename_i same
      subst same
      exact Function.update_self ..
    · rename_i other
      apply Function.update_of_ne
      rcases Nat.lt_or_gt_of_ne other with before | after
      · exact (slot_ne before (by omega)).symm
      · exact slot_ne after (by omega)

/-- The value behind an erased one takes its place. -/
theorem eraseIdx_set_succ {list : List α} {index : Nat} (inside : index + 1 < list.length) :
    (list.set index list[index + 1]).eraseIdx (index + 1) = list.eraseIdx index := by
  apply List.ext_getElem
  · rw [List.length_eraseIdx, List.length_eraseIdx, List.length_set]
    split <;> split <;> omega
  · intro position first second
    simp only [List.getElem_eraseIdx, List.getElem_set]
    split <;> split <;> (try split) <;> (try omega) <;> first | rfl | (congr 1; omega)

/-- The shift removes the value at its first slot from the window. -/
theorem window_shift (data : Nat → α) {size front count index : Nat} (inside : index < count) (fits : count ≤ size)
    {rounds : Nat} (enough : count ≤ index + rounds) :
    window (shift data size ((front + (count - 1)) % size) rounds ((front + index) % size)) size front (count - 1) =
      (window data size front count).eraseIdx index := by
  induction rounds generalizing data index with
  | zero => omega
  | succ rounds ih =>
      unfold shift
      split
      · rename_i stops
        have last : index = count - 1 := by
          by_contra other
          exact slot_ne (show index < count - 1 by omega) (by omega) stops
        obtain ⟨rest, rfl⟩ : ∃ rest, count = rest + 1 := ⟨count - 1, by omega⟩
        rw [last, window_snoc]
        simp [List.eraseIdx_append_of_length_le]
      · rename_i goes
        have onward : index + 1 < count := by
          by_contra stops
          exact goes (by rw [show index = count - 1 by omega])
        have next : ((front + index) % size + 1) % size = (front + (index + 1)) % size := by
          rw [Nat.mod_add_mod, Nat.add_assoc]
        rw [next, ih _ onward (by omega), window_set data inside fits]
        have within : index + 1 < (window data size front count).length := by simpa using onward
        have value : data ((front + (index + 1)) % size) = (window data size front count)[index + 1] := by
          rw [window_getElem]
        rw [value]
        exact eraseIdx_set_succ within

end Ring
