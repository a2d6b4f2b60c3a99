import BtbuOs.Sched.Kernel

namespace BtbuOs.Sched

open Sync (nthread Tid ThreadState)

theorem idToTask_taskToId (s : Slot) (t : Tid) : idToTask (taskToId s t) = (s, t) := by
  have inside : t.val < nthread := t.isLt
  apply Prod.ext
  · apply Fin.ext
    show (s.val * nthread + t.val) / nthread = s.val
    rw [Nat.mul_comm, Nat.mul_add_div (by decide), Nat.div_eq_of_lt inside, Nat.add_zero]
  · apply Fin.ext
    show (s.val * nthread + t.val) % nthread = t.val
    rw [Nat.mul_add_mod_self_right, Nat.mod_eq_of_lt inside]

theorem taskToId_idToTask (id : TaskId) : taskToId (idToTask id).1 (idToTask id).2 = id := by
  apply Fin.ext
  exact Nat.div_add_mod' id.val nthread

/-- An entry names the thread that it was made from. -/
theorem taskToId_eq_iff {s : Slot} {t : Tid} {id : TaskId} : taskToId s t = id ↔ idToTask id = (s, t) := by
  constructor
  · rintro rfl
    exact idToTask_taskToId s t
  · intro names
    rw [← taskToId_idToTask id, names]

/-- The distance from the front to the tail is the number of entries. -/
theorem count_of_tail {q : Queue TaskId} {count : Nat} (front : q.front < q.size) (room : count < q.size)
    (tail : q.tail = (q.front + count) % q.size) (empty : q.empty = decide (count = 0)) : q.count = count := by
  unfold Queue.count
  rw [empty, tail]
  by_cases wraps : q.front + count < q.size
  · rw [Nat.mod_eq_of_lt wraps]
    by_cases none : count = 0
    · simp [none]
    · simp only [none, decide_false, Bool.false_eq_true, if_false]
      rw [if_pos (by omega)]
      omega
  · have wrapped : (q.front + count) % q.size = q.front + count - q.size := by
      rw [Nat.mod_eq_sub_mod (by omega), Nat.mod_eq_of_lt (by omega)]
    rw [wrapped]
    have some : count ≠ 0 := by omega
    simp only [some, decide_false, Bool.false_eq_true, if_false]
    rw [if_neg (by omega)]
    omega

/-- The length that the scan uses is right unless the ring is full. -/
theorem fetchCount_eq {q : Queue TaskId} (valid : q.Valid) (positive : 0 < fetchCount q) :
    fetchCount q = q.count ∧ q.count < q.size := by
  have front := valid.front_lt
  have tail := valid.tail_lt
  unfold fetchCount at positive ⊢
  unfold Queue.count
  cases empty : q.empty with
  | true => simp [empty] at positive
  | false =>
      simp only [empty, Bool.not_false, Bool.and_true, decide_eq_true_eq, Bool.false_eq_true, if_false] at positive ⊢
      split at positive <;> split <;> (try split) <;> omega

/-- The erased position is any entry of a ring that is not full. -/
theorem removeEntry_toList {q : Queue TaskId} (valid : q.Valid) {index : Nat} (inside : index < q.count)
    (room : q.count < q.size) :
    (removeEntry q ((q.front + index) % q.size)).Valid ∧
      (removeEntry q ((q.front + index) % q.size)).toList = q.toList.eraseIdx index ∧
      (removeEntry q ((q.front + index) % q.size)).size = q.size := by
  have front := valid.front_lt
  have last : (q.tail + q.size - 1) % q.size = (q.front + (q.count - 1)) % q.size := by
    rw [Nat.add_sub_assoc (by omega), Queue.tail_eq valid, Nat.mod_add_mod]
    rw [show q.front + q.count + (q.size - 1) = q.front + (q.count - 1) + q.size by omega, Nat.add_mod_right]
  have nonempty : q.empty = false := by
    cases empty : q.empty with
    | true =>
        rw [(Queue.count_eq_zero valid).mpr empty] at inside
        omega
    | false => rfl
  have emptied : (if q.front == (q.front + (q.count - 1)) % q.size then true else q.empty) =
      decide (q.count - 1 = 0) := by
    rw [nonempty]
    by_cases single : q.count - 1 = 0
    · simp [single, Nat.mod_eq_of_lt front]
    · have apart : (q.front + 0) % q.size ≠ (q.front + (q.count - 1)) % q.size :=
        Ring.slot_ne (by omega) (by omega)
      rw [Nat.add_zero, Nat.mod_eq_of_lt front] at apart
      simp [single, apart]
  have counted : (removeEntry q ((q.front + index) % q.size)).count = q.count - 1 := by
    apply count_of_tail
    · exact front
    · show q.count - 1 < q.size
      omega
    · exact last
    · show (if q.front == (q.tail + q.size - 1) % q.size then true else q.empty) = _
      rw [last, emptied]
  refine ⟨⟨front, ?_, ?_⟩, ?_, rfl⟩
  · show (q.tail + q.size - 1) % q.size < q.size
    exact Nat.mod_lt _ (by omega)
  · intro empty
    change (if q.front == (q.tail + q.size - 1) % q.size then true else q.empty) = true at empty
    rw [nonempty] at empty
    show q.front = (q.tail + q.size - 1) % q.size
    simpa using empty
  · unfold Queue.toList
    rw [counted]
    show Ring.window (Ring.shift q.data q.size ((q.tail + q.size - 1) % q.size) q.size _) q.size q.front _ = _
    rw [last]
    exact Ring.window_shift q.data inside (Nat.le_of_lt room) (by omega)

/-- The scan chooses an entry of the window whose thread is RUNNABLE. -/
theorem scan_some {k : Kernel} {idx : Nat} (found : (scan k).1 = some idx) :
    ∃ i, i < fetchCount k.queue ∧ idx = (k.queue.front + i) % k.queue.size := by
  have fold (rounds : Nat) : ∀ idx,
      ((List.range rounds).foldl (scanEntry k) (none, 2 ^ 64 - 1)).1 = some idx →
        ∃ i, i < rounds ∧ idx = (k.queue.front + i) % k.queue.size := by
    induction rounds with
    | zero => simp
    | succ rounds ih =>
        intro idx chosen
        rw [List.range_succ, List.foldl_append, List.foldl_cons, List.foldl_nil, scanEntry] at chosen
        have earlier (before : ((List.range rounds).foldl (scanEntry k) (none, 2 ^ 64 - 1)).1 = some idx) :
            ∃ i, i < rounds + 1 ∧ idx = (k.queue.front + i) % k.queue.size := by
          obtain ⟨i, inside, position⟩ := ih idx before
          exact ⟨i, Nat.lt_succ_of_lt inside, position⟩
        split at chosen
        · exact earlier chosen
        · split at chosen
          · exact ⟨rounds, Nat.lt_succ_self rounds, (Option.some.inj chosen).symm⟩
          · exact earlier chosen
  exact fold _ idx found

/-- One entry leaves the queue and nothing but a stride changes. -/
structure Fetched (k after : Kernel) (id : TaskId) : Prop where
  split : ∃ before rest, k.queue.toList = before ++ id :: rest ∧ after.queue.toList = before ++ rest
  valid : after.queue.Valid
  size : after.queue.size = k.queue.size
  current : after.current = k.current
  halted : after.halted = k.halted
  kept : ∀ s, (after.pool s).threads = (k.pool s).threads ∧ (after.pool s).state = (k.pool s).state ∧
    (after.pool s).parent = (k.pool s).parent

/-- The call finds nothing in an empty queue and takes out one entry otherwise. -/
theorem fetchTask_fetched {k after : Kernel} {result : Option TaskId} (valid : k.queue.Valid)
    (fetched : fetchTask k = (result, after)) :
    result = none ∧ k.queue.toList = [] ∨ ∃ id, result = some id ∧ Fetched k after id := by
  unfold fetchTask at fetched
  cases empty : k.queue.empty with
  | true =>
      simp only [empty, if_true, Prod.mk.injEq] at fetched
      refine Or.inl ⟨fetched.1.symm, List.length_eq_zero_iff.mp ?_⟩
      rw [Queue.toList_length]
      exact (Queue.count_eq_zero valid).mpr empty
  | false =>
      simp only [empty, Bool.false_eq_true, if_false] at fetched
      cases found : (scan k).1 with
      | none =>
          simp only [found, Prod.mk.injEq] at fetched
          obtain ⟨rfl, rfl⟩ := fetched
          cases popped : popQueue k.queue with
          | mk first rest =>
              cases first with
              | none =>
                  have absent := (Queue.popQueue_none valid).mp (by rw [popped])
                  exact Or.inl ⟨rfl, absent⟩
              | some id =>
                  obtain ⟨after, content, size⟩ := Queue.popQueue_some valid popped
                  exact Or.inr ⟨id, rfl, ⟨[], rest.toList, content, rfl⟩, after, size, rfl, rfl,
                    fun s => ⟨rfl, rfl, rfl⟩⟩
      | some idx =>
          simp only [found, Prod.mk.injEq] at fetched
          obtain ⟨rfl, rfl⟩ := fetched
          obtain ⟨i, inside, rfl⟩ := scan_some found
          obtain ⟨same, room⟩ := fetchCount_eq valid (by omega)
          rw [same] at inside
          obtain ⟨after, content, size⟩ := removeEntry_toList valid inside room
          have bound : i < k.queue.toList.length := by rwa [Queue.toList_length]
          have entry : k.queue.data ((k.queue.front + i) % k.queue.size) = k.queue.toList[i] := by
            simp [Queue.toList]
          refine Or.inr ⟨_, rfl, ⟨k.queue.toList.take i, k.queue.toList.drop (i + 1), ?_, ?_⟩, after, size, rfl, rfl, ?_⟩
          · rw [entry, ← List.drop_eq_getElem_cons bound, List.take_append_drop]
          · rw [← List.eraseIdx_eq_take_drop_succ]
            exact content
          · intro s
            show ((Function.update k.pool _ _) s).threads = _ ∧ _
            by_cases own : s = (idToTask (k.queue.data ((k.queue.front + i) % k.queue.size))).1
            · rw [← own]
              simp [Kernel.setProcess]
            · simp [Kernel.setProcess, own]

end BtbuOs.Sched
