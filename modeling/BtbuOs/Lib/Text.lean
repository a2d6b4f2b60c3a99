import BtbuOs.Lib.Bytes

namespace Bytes

/-- The byte of an ASCII character. -/
def chr (c : Char) : Byte := BitVec.ofNat 8 c.toNat

def ascii (str : String) : List Byte := str.toList.map chr

/-- A string has no null byte before its end. -/
structure Text where
  bytes : List Byte
  clean : 0 ∉ bytes

/-- Stores to consecutive places, one byte after the other. -/
def put (mem : Memory) : Nat → List Byte → Memory
  | _, [] => mem
  | start, value :: rest => put (Function.update mem start value) (start + 1) rest

/-- The string at a place, which ends with its array at the latest. -/
def string (mem : Memory) (start size : Nat) : List Byte := (slice mem start size).takeWhile (· ≠ 0)

variable {mem : Memory} {start size : Nat}

theorem put_append (mem : Memory) (start : Nat) (first second : List Byte) :
    put mem start (first ++ second) = put (put mem start first) (start + first.length) second := by
  induction first generalizing mem start with
  | nil => rfl
  | cons value first ih => rw [List.cons_append, put, put, ih, List.length_cons, Nat.add_right_comm, Nat.add_assoc]

/-- Stores keep the bytes before and behind them. -/
theorem put_outside (src : List Byte) {k : Nat} (outside : k < start ∨ start + src.length ≤ k) : put mem start src k = mem k := by
  induction src generalizing mem start with
  | nil => rfl
  | cons value src ih =>
      rw [List.length_cons] at outside
      rw [put, ih (by omega), Function.update_of_ne (by omega)]

/-- Stores leave the bytes that they are given. -/
theorem slice_put (mem : Memory) (start : Nat) (src : List Byte) : slice (put mem start src) start src.length = src := by
  induction src generalizing mem start with
  | nil => rfl
  | cons value src ih =>
      have first : put (Function.update mem start value) (start + 1) src start = value := by
        rw [put_outside src (Or.inl (Nat.lt_succ_self start)), Function.update_self]
      rw [put, List.length_cons, Nat.add_comm src.length 1, slice_add, ih]
      simp [slice, first]

/-- Later stores keep the first bytes. -/
theorem slice_put_append (mem : Memory) (start : Nat) (first second : List Byte) :
    slice (put mem start (first ++ second)) start first.length = first := by
  have kept : slice (put mem start (first ++ second)) start first.length = slice (put mem start first) start first.length := by
    rw [put_append]
    exact slice_congr fun k below => put_outside _ (Or.inl (by omega))
  rw [kept, slice_put]

/-- Stores from a stored byte on replace it. -/
theorem put_over (mem : Memory) (start : Nat) (first more : List Byte) (a b : Byte) :
    put (put mem start (first ++ [a])) (start + first.length) (b :: more) = put mem start (first ++ b :: more) := by
  rw [put_append mem start first [a], put_append mem start first (b :: more)]
  simp [put]

/-- A string is stored over the null byte of the one before it. -/
theorem put_string (mem : Memory) (start : Nat) (first second : List Byte) :
    put (put mem start (first ++ [0])) (start + first.length) (second ++ [0]) = put mem start (first ++ second ++ [0]) := by
  rw [List.append_assoc]
  cases second with
  | nil => exact put_over mem start first [] 0 0
  | cons value second => exact put_over mem start first (second ++ [0]) 0 value

/-- A string is read back from where it is stored. -/
theorem string_put (mem : Memory) (start : Nat) {str : List Byte} (clean : 0 ∉ str) (room : str.length < size) :
    string (put mem start (str ++ [0])) start size = str := by
  obtain ⟨rest, whole⟩ : ∃ rest, size = (str ++ [0]).length + rest := by
    refine ⟨size - (str ++ [0]).length, ?_⟩
    rw [List.length_append, List.length_singleton]
    omega
  have real : ∀ value ∈ str, decide (value ≠ 0) = true := by
    intro value listed
    rw [decide_eq_true_eq]
    rintro rfl
    exact clean listed
  rw [string, whole, slice_add, slice_put, List.append_assoc, List.takeWhile_append_of_pos real]
  simp

end Bytes
