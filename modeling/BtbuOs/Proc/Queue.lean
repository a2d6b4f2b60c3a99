import BtbuOs.Lib.Ring

namespace BtbuOs

/-- The C arrays hold numbers; here `α` is what the stored number names. -/
structure Queue (α : Type) where
  data : Nat → α
  size : Nat
  front : Nat
  tail : Nat
  empty : Bool

variable {α : Type}

/-- The call keeps the storage and clears the positions. -/
def initQueue (size : Nat) (data : Nat → α) : Queue α :=
  { data, size, front := 0, tail := 0, empty := true }

/-- A push into a full ring panics. -/
def pushQueue (q : Queue α) (value : α) : Except String (Queue α) :=
  if !q.empty && q.front == q.tail then
    .error "queue shouldn't be overflow"
  else
    .ok { q with
      empty := false
      data := Function.update q.data q.tail value
      tail := (q.tail + 1) % q.size }

/-- The result `none` stands for the value -1, which `id_to_task` turns into NULL. -/
def popQueue (q : Queue α) : Option α × Queue α :=
  if q.empty then (none, q)
  else
    let front := (q.front + 1) % q.size
    (some (q.data q.front), { q with front, empty := if front == q.tail then true else q.empty })

namespace Queue

/-- The positions lie inside the storage and agree when the ring is empty. -/
structure Valid (q : Queue α) : Prop where
  front_lt : q.front < q.size
  tail_lt : q.tail < q.size
  emptied : q.empty = true → q.front = q.tail

/-- Equal positions mean an empty or a full ring. -/
def count (q : Queue α) : Nat :=
  if q.empty then 0
  else if q.front < q.tail then q.tail - q.front
  else q.size - q.front + q.tail

/-- The queue's content, oldest first. -/
def toList (q : Queue α) : List α := Ring.window q.data q.size q.front q.count

@[simp] theorem toList_length (q : Queue α) : q.toList.length = q.count :=
  Ring.window_length ..

theorem count_le {q : Queue α} (valid : q.Valid) : q.count ≤ q.size := by
  have := valid.front_lt
  have := valid.tail_lt
  unfold count
  split <;> [skip; split] <;> omega

/-- The tail is the slot after the content. -/
theorem tail_eq {q : Queue α} (valid : q.Valid) : q.tail = (q.front + q.count) % q.size := by
  have front := valid.front_lt
  have tail := valid.tail_lt
  unfold count
  split
  · rename_i empty
    rw [Nat.add_zero, Nat.mod_eq_of_lt front, valid.emptied empty]
  · split
    · rw [Nat.add_sub_cancel' (by omega), Nat.mod_eq_of_lt tail]
    · rw [← Nat.add_assoc, Nat.add_sub_cancel' (by omega), Nat.add_mod_left, Nat.mod_eq_of_lt tail]

/-- Only a ring that holds `size` values refuses a push. -/
theorem full_iff {q : Queue α} (valid : q.Valid) :
    (!q.empty && q.front == q.tail) = true ↔ q.count = q.size := by
  have := valid.front_lt
  have := valid.tail_lt
  cases empty : q.empty <;> simp [count, empty]
  · split <;> omega
  · omega

theorem count_eq_zero {q : Queue α} (valid : q.Valid) : q.count = 0 ↔ q.empty = true := by
  have := valid.front_lt
  have := valid.tail_lt
  cases empty : q.empty <;> simp [count, empty]
  split <;> omega

@[simp] theorem initQueue_toList (size : Nat) (data : Nat → α) : (initQueue size data).toList = [] := rfl

theorem initQueue_valid {size : Nat} (positive : 0 < size) (data : Nat → α) :
    (initQueue size data).Valid :=
  ⟨positive, positive, fun _ => rfl⟩

/-- A successful push appends its value. -/
theorem pushQueue_ok {q next : Queue α} {value : α} (valid : q.Valid)
    (pushed : pushQueue q value = .ok next) :
    next.Valid ∧ next.toList = q.toList ++ [value] ∧ next.size = q.size := by
  unfold pushQueue at pushed
  split at pushed
  · contradiction
  rename_i notFull
  rw [full_iff valid] at notFull
  have room : q.count < q.size := Nat.lt_of_le_of_ne (count_le valid) notFull
  have tail := tail_eq valid
  have front_lt := valid.front_lt
  have tail_lt := valid.tail_lt
  injection pushed with pushed
  subst pushed
  have modulus : (q.tail + 1) % q.size < q.size := Nat.mod_lt _ (by omega)
  refine ⟨⟨front_lt, modulus, by simp⟩, ?_, rfl⟩
  have counted : (Queue.mk (Function.update q.data q.tail value) q.size q.front
      ((q.tail + 1) % q.size) false).count = q.count + 1 := by
    have position := Ring.succ_slot tail_lt
    have before : q.count = if q.empty then 0
      else if q.front < q.tail then q.tail - q.front else q.size - q.front + q.tail := rfl
    have emptied := valid.emptied
    simp only [count, Bool.false_eq_true, if_false]
    split at before
    · rename_i empty
      have := emptied empty
      split at position <;> split <;> omega
    · split at before <;> split at position <;> split <;> omega
  unfold toList
  rw [counted]
  dsimp only
  rw [tail]
  exact Ring.window_push q.data room value

/-- A push succeeds exactly on a ring with a free slot. -/
theorem pushQueue_isOk {q : Queue α} (valid : q.Valid) (value : α) :
    (∃ next, pushQueue q value = .ok next) ↔ q.count < q.size := by
  have bound := count_le valid
  have full := full_iff valid
  unfold pushQueue
  constructor
  · rintro ⟨next, pushed⟩
    split at pushed
    · contradiction
    · rename_i notFull; rw [full] at notFull; omega
  · intro room
    rw [if_neg (by rw [full]; omega)]
    exact ⟨_, rfl⟩

/-- A pop from an empty queue changes nothing. -/
theorem popQueue_none {q : Queue α} (valid : q.Valid) :
    (popQueue q).1 = none ↔ q.toList = [] := by
  rw [← List.length_eq_zero_iff, toList_length, count_eq_zero valid]
  cases empty : q.empty <;> simp [popQueue, empty]

theorem popQueue_none_eq {q next : Queue α} (popped : popQueue q = (none, next)) : next = q := by
  unfold popQueue at popped
  split at popped
  · injection popped with _ same; exact same.symm
  · injection popped with impossible; contradiction

/-- A pop takes the oldest value. -/
theorem popQueue_some {q next : Queue α} {value : α} (valid : q.Valid)
    (popped : popQueue q = (some value, next)) :
    next.Valid ∧ q.toList = value :: next.toList ∧ next.size = q.size := by
  unfold popQueue at popped
  split at popped
  · injection popped with impossible; contradiction
  rename_i notEmpty
  have front_lt := valid.front_lt
  have tail_lt := valid.tail_lt
  simp only [Prod.mk.injEq, Option.some.injEq] at popped
  obtain ⟨rfl, rfl⟩ := popped
  have modulus : (q.front + 1) % q.size < q.size := Nat.mod_lt _ (by omega)
  refine ⟨⟨modulus, tail_lt, ?_⟩, ?_, rfl⟩
  · dsimp only
    split
    · rename_i same; intro _; simpa using same
    · intro empty; exact absurd empty notEmpty
  have before : q.count = if q.front < q.tail then q.tail - q.front else q.size - q.front + q.tail := by
    simp [count, notEmpty]
  have counted : q.count = (Queue.mk q.data q.size ((q.front + 1) % q.size) q.tail
      (if (q.front + 1) % q.size == q.tail then true else q.empty)).count + 1 := by
    rw [before]
    simp only [count]
    have position := Ring.succ_slot front_lt
    by_cases last : (q.front + 1) % q.size = q.tail
    · simp only [last, beq_self_eq_true, if_true]
      split at position <;> split <;> omega
    · simp only [beq_eq_false_iff_ne.mpr last, Bool.false_eq_true, if_false, notEmpty]
      split at position <;> split <;> split <;> omega
  unfold toList
  rw [counted, Ring.window_cons, Nat.mod_eq_of_lt front_lt, ← Ring.window_mod q.data q.size (q.front + 1)]

end Queue

end BtbuOs
