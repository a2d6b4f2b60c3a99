import Mathlib.Algebra.BigOperators.Fin
import Mathlib.Logic.Function.Basic
import Mathlib.Tactic.Common

namespace Bytes

abbrev Byte := BitVec 8

/-- A memory gives the byte at each offset. -/
abbrev Memory := Nat → Byte

/-- The unsigned little-endian number in `size` bytes. -/
def load (mem : Memory) : Nat → Nat → Nat
  | _, 0 => 0
  | start, size + 1 => (mem start).toNat + 256 * load mem (start + 1) size

/-- The write of a number keeps its lowest `size` bytes. -/
def store (mem : Memory) (start size value : Nat) : Memory :=
  fun k => if start ≤ k ∧ k < start + size then BitVec.ofNat 8 (value / 256 ^ (k - start)) else mem k

/-- The first `size` bytes of the data replace those from `start` on. -/
def splice (mem : Memory) (start size : Nat) (data : Memory) : Memory :=
  fun k => if start ≤ k ∧ k < start + size then data (k - start) else mem k

/-- An array of numbers of the same size replaces the bytes from `start` on. -/
def storeArray (mem : Memory) (start size count : Nat) (values : Nat → Nat) : Memory :=
  fun k => if start ≤ k ∧ k < start + size * count then
    BitVec.ofNat 8 (values ((k - start) / size) / 256 ^ ((k - start) % size)) else mem k

/-- The list of `size` bytes from `start` on. -/
def slice (mem : Memory) (start size : Nat) : List Byte := (List.range size).map fun k => mem (start + k)

def bit (mem : Memory) (i : Nat) : Bool := (mem (i / 8)).getLsbD (i % 8)

def setBit (mem : Memory) (i : Nat) : Memory :=
  Function.update mem (i / 8) (mem (i / 8) ||| 1#8 <<< (i % 8))

def clearBit (mem : Memory) (i : Nat) : Memory :=
  Function.update mem (i / 8) (mem (i / 8) &&& ~~~(1#8 <<< (i % 8)))

variable {mem other : Memory} {start size : Nat}

theorem load_lt (mem : Memory) (start size : Nat) : load mem start size < 256 ^ size := by
  induction size generalizing start with
  | zero => exact Nat.one_pos
  | succ size ih =>
      have byte := (mem start).isLt
      have rest := ih (start + 1)
      rw [load, Nat.pow_succ]
      omega

/-- Only the bytes of the number matter. -/
theorem load_congr (same : ∀ k, start ≤ k → k < start + size → mem k = other k) :
    load mem start size = load other start size := by
  induction size generalizing start with
  | zero => rfl
  | succ size ih =>
      rw [load, load, same start (Nat.le_refl _) (by omega)]
      rw [ih fun k above below => same k (by omega) (by omega)]

/-- A number can be read from a copy of its bytes. -/
theorem load_shift {place : Nat} (same : ∀ k, k < size → mem (start + k) = other (place + k)) :
    load mem start size = load other place size := by
  induction size generalizing start place with
  | zero => rfl
  | succ size ih =>
      have rest : load mem (start + 1) size = load other (place + 1) size := by
        apply ih
        intro k below
        rw [Nat.add_assoc, Nat.add_assoc, Nat.add_comm 1 k]
        exact same (k + 1) (by omega)
      have first := same 0 (Nat.succ_pos size)
      rw [Nat.add_zero, Nat.add_zero] at first
      rw [load, load, first, rest]

theorem load_zero (zero : ∀ k, start ≤ k → k < start + size → mem k = 0) : load mem start size = 0 := by
  induction size generalizing start with
  | zero => rfl
  | succ size ih =>
      rw [load, zero start (Nat.le_refl _) (by omega), ih fun k above below => zero k (by omega) (by omega)]
      rfl

/-- The bytes of a number give its value back. -/
theorem load_digits {value : Nat} (digits : ∀ k, k < size → mem (start + k) = BitVec.ofNat 8 (value / 256 ^ k)) :
    load mem start size = value % 256 ^ size := by
  induction size generalizing start value with
  | zero => simp [load, Nat.mod_one]
  | succ size ih =>
      have rest : load mem (start + 1) size = value / 256 % 256 ^ size := by
        apply ih
        intro k below
        rw [Nat.add_right_comm, Nat.add_assoc, digits (k + 1) (by omega), Nat.pow_succ', Nat.div_div_eq_div_mul]
      have first := digits 0 (Nat.succ_pos size)
      rw [Nat.add_zero, Nat.pow_zero, Nat.div_one] at first
      rw [load, rest, first, Nat.pow_succ', Nat.mod_mul]
      rfl

@[simp] theorem load_store (mem : Memory) (start size value : Nat) :
    load (store mem start size value) start size = value % 256 ^ size := by
  apply load_digits
  intro k below
  simp [store, below]

/-- A write elsewhere keeps the number. -/
theorem load_store_of_disjoint (mem : Memory) {start size place width : Nat} (value : Nat)
    (apart : place + width ≤ start ∨ start + size ≤ place) :
    load (store mem start size value) place width = load mem place width := by
  apply load_congr
  intro k above below
  exact if_neg (by omega)

theorem load_splice_of_disjoint (mem data : Memory) {start size place width : Nat}
    (apart : place + width ≤ start ∨ start + size ≤ place) :
    load (splice mem start size data) place width = load mem place width := by
  apply load_congr
  intro k above below
  exact if_neg (by omega)

theorem load_storeArray (mem : Memory) {start size count i : Nat} (values : Nat → Nat) (inside : i < count) :
    load (storeArray mem start size count values) (start + size * i) size = values i % 256 ^ size := by
  apply load_digits
  intro k below
  have bound : size * i + k < size * count := by
    calc size * i + k < size * i + size := by omega
      _ = size * (i + 1) := by rw [Nat.mul_succ]
      _ ≤ size * count := Nat.mul_le_mul_left size inside
  have offset : start + size * i + k - start = k + size * i := by omega
  simp only [storeArray]
  rw [if_pos (by omega), offset, Nat.add_mul_div_left k i (by omega), Nat.div_eq_of_lt below, Nat.zero_add,
    Nat.add_mul_mod_self_left, Nat.mod_eq_of_lt below]

theorem load_storeArray_of_disjoint (mem : Memory) {start size count place width : Nat} (values : Nat → Nat)
    (apart : place + width ≤ start ∨ start + size * count ≤ place) :
    load (storeArray mem start size count values) place width = load mem place width := by
  apply load_congr
  intro k above below
  exact if_neg (by omega)

theorem splice_inside (mem data : Memory) {start size k : Nat} (above : start ≤ k) (below : k < start + size) :
    splice mem start size data k = data (k - start) :=
  if_pos ⟨above, below⟩

theorem splice_outside (mem data : Memory) {start size k : Nat} (outside : k < start ∨ start + size ≤ k) :
    splice mem start size data k = mem k :=
  if_neg (by omega)

@[simp] theorem splice_none (mem data : Memory) (start : Nat) : splice mem start 0 data = mem := by
  funext k
  exact splice_outside mem data (by omega)

/-- Two splices in a row are one. -/
theorem splice_splice (mem data : Memory) (start first second : Nat) :
    splice (splice mem start first data) (start + first) second (fun k => data (first + k)) = splice mem start (first + second) data := by
  funext k
  by_cases late : start + first ≤ k ∧ k < start + first + second
  · have offset : first + (k - (start + first)) = k - start := by omega
    rw [splice_inside _ _ late.1 late.2, splice_inside _ _ (by omega) (by omega), offset]
  · rw [splice_outside _ _ (by omega)]
    by_cases early : start ≤ k ∧ k < start + first
    · rw [splice_inside _ _ early.1 early.2, splice_inside _ _ early.1 (by omega)]
    · rw [splice_outside _ _ (by omega), splice_outside _ _ (by omega)]

theorem splice_congr {mem data other : Memory} {start size : Nat} (same : ∀ k, k < size → data k = other k) :
    splice mem start size data = splice mem start size other := by
  funext k
  by_cases inside : start ≤ k ∧ k < start + size
  · rw [splice_inside _ _ inside.1 inside.2, splice_inside _ _ inside.1 inside.2, same _ (by omega)]
  · rw [splice_outside _ _ (by omega), splice_outside _ _ (by omega)]

@[simp] theorem length_slice (mem : Memory) (start size : Nat) : (slice mem start size).length = size := by
  simp [slice]

@[simp] theorem slice_zero (mem : Memory) (start : Nat) : slice mem start 0 = [] := rfl

theorem slice_congr {place : Nat} (same : ∀ k, k < size → mem (start + k) = other (place + k)) :
    slice mem start size = slice other place size := by
  apply List.map_congr_left
  intro k member
  exact same k (List.mem_range.mp member)

/-- A list of bytes is the one up to a place and the one from there on. -/
theorem slice_add (mem : Memory) (start first second : Nat) :
    slice mem start (first + second) = slice mem start first ++ slice mem (start + first) second := by
  unfold slice
  rw [List.range_add, List.map_append, List.map_map]
  congr 1
  apply List.map_congr_left
  intro k _
  simp [Nat.add_assoc]

theorem slice_succ (mem : Memory) (start size : Nat) :
    slice mem start (size + 1) = slice mem start size ++ [mem (start + size)] := by
  rw [slice_add]
  rfl

theorem take_slice (mem : Memory) (start size count : Nat) :
    (slice mem start size).take count = slice mem start (min count size) := by
  unfold slice
  rw [← List.map_take, List.take_range]

/-- The bytes after a splice are those of the data. -/
theorem slice_splice (mem data : Memory) (start size : Nat) : slice (splice mem start size data) start size = slice data 0 size := by
  apply slice_congr
  intro k below
  rw [splice_inside mem data (by omega) (by omega), Nat.add_sub_cancel_left, Nat.zero_add]

/-- A splice elsewhere keeps the bytes. -/
theorem slice_splice_of_disjoint (mem data : Memory) {start size place width : Nat}
    (apart : place + width ≤ start ∨ start + size ≤ place) :
    slice (splice mem start size data) place width = slice mem place width := by
  apply slice_congr
  intro k below
  exact splice_outside mem data (by omega)

theorem slice_update_of_outside (mem : Memory) {place start size : Nat} (value : Byte)
    (outside : place < start ∨ start + size ≤ place) :
    slice (Function.update mem place value) start size = slice mem start size := by
  apply slice_congr
  intro k below
  exact Function.update_of_ne (by omega) _ _

/-- Inside one byte the place decides the index. -/
theorem bit_place {i j : Nat} (byte : j / 8 = i / 8) : j % 8 = i % 8 ↔ j = i := by
  constructor
  · intro place
    omega
  · rintro rfl
    rfl

@[simp] theorem bit_setBit (mem : Memory) (i j : Nat) : bit (setBit mem i) j = (decide (j = i) || bit mem j) := by
  unfold bit setBit
  by_cases byte : j / 8 = i / 8
  · have place := bit_place byte
    have inside : j % 8 < 8 := Nat.mod_lt _ (by decide)
    rw [byte, Function.update_self, BitVec.getLsbD_or, BitVec.getLsbD_shiftLeft, BitVec.getLsbD_one]
    by_cases same : j = i
    · subst same
      simp [inside]
    · have apart : j % 8 ≠ i % 8 := fun equal => same (place.mp equal)
      simp only [same, decide_false, Bool.false_or]
      by_cases below : j % 8 < i % 8
      · simp [below]
      · have positive : j % 8 - i % 8 ≠ 0 := by omega
        simp [positive]
  · have apart : j ≠ i := by
      rintro rfl
      exact byte rfl
    simp [Function.update_of_ne byte, apart]

@[simp] theorem bit_clearBit (mem : Memory) (i j : Nat) :
    bit (clearBit mem i) j = (!decide (j = i) && bit mem j) := by
  unfold bit clearBit
  by_cases byte : j / 8 = i / 8
  · have place := bit_place byte
    have inside : j % 8 < 8 := Nat.mod_lt _ (by decide)
    rw [byte, Function.update_self, BitVec.getLsbD_and, BitVec.getLsbD_not, BitVec.getLsbD_shiftLeft,
      BitVec.getLsbD_one]
    by_cases same : j = i
    · subst same
      simp [inside]
    · have apart : j % 8 ≠ i % 8 := fun equal => same (place.mp equal)
      simp only [same, decide_false, Bool.not_false, Bool.true_and]
      by_cases below : j % 8 < i % 8
      · simp [below, inside]
      · have positive : j % 8 - i % 8 ≠ 0 := by omega
        simp [positive, inside]
  · have apart : j ≠ i := by
      rintro rfl
      exact byte rfl
    simp [Function.update_of_ne byte, apart]

end Bytes
