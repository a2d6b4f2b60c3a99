import BtbuOs.Sched.RunQueue

namespace BtbuOs.Sched

open Sync (nthread Tid ThreadState)

/-- The stride of the process that an entry belongs to. -/
def strideOf (k : Kernel) (id : TaskId) : Nat := (k.pool (idToTask id).1).stride

/-- The amount that one selection adds to the stride. -/
def passOf (k : Kernel) (s : Slot) : Nat := bigStride / (k.pool s).priority

/-- A process is queued when one of its threads has an entry. -/
def Queued (k : Kernel) (s : Slot) : Prop := ∃ id ∈ k.queue.toList, (idToTask id).1 = s

instance (k : Kernel) (s : Slot) : Decidable (Queued k s) :=
  decidable_of_iff ((k.queue.toList.any fun id => (idToTask id).1 = s) = true) (by simp [Queued])

/-- The scheduler may choose, and every entry is a RUNNABLE thread. -/
structure Contested (k : Kernel) : Prop where
  idle : k.current = none
  goes : k.halted = false
  valid : k.queue.Valid
  size : k.queue.size = queueSize
  room : k.queue.toList.length < queueSize
  ready : ∀ id ∈ k.queue.toList, Runnable k (idToTask id).1 (idToTask id).2
  priority : ∀ s, Queued k s → 2 ≤ (k.pool s).priority
  stride : ∀ s, (k.pool s).stride < 2 ^ 64

/-- The scheduler switches to a thread, which then yields. -/
def turn (k : Kernel) : Option ((Slot × Tid) × Kernel) :=
  (step k .scheduler).bind fun (mid, _) => mid.current.bind fun task =>
    (step mid .yield).map fun (after, _) => (task, after)

/-- What the scan has found after some rounds: the first entry of the smallest stride below the maximum. -/
def Least (k : Kernel) (rounds : Nat) (best : Option Nat × Nat) : Prop :=
  match best.1 with
  | none => best.2 = 2 ^ 64 - 1 ∧ ∀ i, i < rounds → 2 ^ 64 - 1 ≤ strideOf k (k.queue.data ((k.queue.front + i) % k.queue.size))
  | some idx => ∃ i, i < rounds ∧ idx = (k.queue.front + i) % k.queue.size ∧ best.2 = strideOf k (k.queue.data idx) ∧
      best.2 < 2 ^ 64 - 1 ∧
      (∀ j, j < rounds → best.2 ≤ strideOf k (k.queue.data ((k.queue.front + j) % k.queue.size))) ∧
      ∀ j, j < i → best.2 < strideOf k (k.queue.data ((k.queue.front + j) % k.queue.size))

variable {k after : Kernel} {s : Slot} {t : Tid}

/-- One round of the scan over a RUNNABLE entry. -/
theorem scanEntry_least {rounds : Nat} {best : Option Nat × Nat} (least : Least k rounds best)
    (ready : Runnable k (idToTask (k.queue.data ((k.queue.front + rounds) % k.queue.size))).1
      (idToTask (k.queue.data ((k.queue.front + rounds) % k.queue.size))).2) :
    Least k (rounds + 1) (scanEntry k best rounds) := by
  obtain ⟨chosen, bound⟩ := best
  have state : (k.pool (idToTask (k.queue.data ((k.queue.front + rounds) % k.queue.size))).1).threads
      (idToTask (k.queue.data ((k.queue.front + rounds) % k.queue.size))).2 = .runnable := ready
  unfold scanEntry
  dsimp only
  rw [if_neg (by simp [state])]
  change Least k (rounds + 1) (if strideOf k (k.queue.data ((k.queue.front + rounds) % k.queue.size)) < bound then _ else _)
  cases chosen with
  | none =>
      obtain ⟨same, above⟩ := least
      dsimp only at same
      subst same
      split
      · rename_i lower
        refine ⟨rounds, Nat.lt_succ_self rounds, rfl, rfl, lower, fun j inside => ?_, fun j earlier => ?_⟩
        · rcases Nat.lt_succ_iff_lt_or_eq.mp inside with earlier | rfl
          · exact Nat.le_trans (Nat.le_of_lt lower) (above j earlier)
          · exact Nat.le_refl _
        · exact Nat.lt_of_lt_of_le lower (above j earlier)
      · rename_i higher
        refine ⟨rfl, fun j inside => ?_⟩
        rcases Nat.lt_succ_iff_lt_or_eq.mp inside with earlier | rfl
        · exact above j earlier
        · exact Nat.le_of_not_lt higher
  | some idx =>
      obtain ⟨i, inside, position, same, small, minimal, strict⟩ := least
      dsimp only at same small minimal strict
      split
      · rename_i lower
        refine ⟨rounds, Nat.lt_succ_self rounds, rfl, rfl, Nat.lt_trans lower small, fun j within => ?_, fun j earlier => ?_⟩
        · rcases Nat.lt_succ_iff_lt_or_eq.mp within with earlier | rfl
          · exact Nat.le_trans (Nat.le_of_lt lower) (minimal j earlier)
          · exact Nat.le_refl _
        · exact Nat.lt_of_lt_of_le lower (minimal j earlier)
      · rename_i higher
        refine ⟨i, Nat.lt_succ_of_lt inside, position, same, small, fun j within => ?_, strict⟩
        rcases Nat.lt_succ_iff_lt_or_eq.mp within with earlier | rfl
        · exact minimal j earlier
        · exact Nat.le_of_not_lt higher

/-- The scan finds the first entry of the smallest stride when every entry is RUNNABLE. -/
theorem scan_least (ready : ∀ i, i < fetchCount k.queue →
      Runnable k (idToTask (k.queue.data ((k.queue.front + i) % k.queue.size))).1
        (idToTask (k.queue.data ((k.queue.front + i) % k.queue.size))).2) :
    Least k (fetchCount k.queue) (scan k) := by
  have fold (rounds : Nat) (within : rounds ≤ fetchCount k.queue) :
      Least k rounds ((List.range rounds).foldl (scanEntry k) (none, 2 ^ 64 - 1)) := by
    induction rounds with
    | zero => exact ⟨rfl, fun i inside => absurd inside (Nat.not_lt_zero i)⟩
    | succ rounds ih =>
        rw [List.range_succ, List.foldl_append, List.foldl_cons, List.foldl_nil]
        exact scanEntry_least (ih (by omega)) (ready rounds (by omega))
  exact fold _ (Nat.le_refl _)

/-- The length of the scan is the number of entries of a ring that is not full. -/
theorem fetchCount_room {q : Queue TaskId} (valid : q.Valid) (room : q.count < q.size) : fetchCount q = q.count := by
  have front := valid.front_lt
  have tail := valid.tail_lt
  unfold Queue.count at room
  unfold fetchCount Queue.count
  cases empty : q.empty with
  | true => simp
  | false =>
      simp only [empty, Bool.not_false, Bool.and_true, decide_eq_true_eq, Bool.false_eq_true, if_false] at room ⊢
      split at room <;> split <;> omega

/-- The choice of the scheduler: the first entry of the smallest stride, or the oldest one when no stride is below the
maximum. -/
inductive Choice (k : Kernel) (stride : Nat) (s : Slot) (before : List TaskId) : Prop where
  | least (small : (k.pool s).stride < 2 ^ 64 - 1) (minimal : ∀ id ∈ k.queue.toList, (k.pool s).stride ≤ strideOf k id)
      (strict : ∀ id ∈ before, (k.pool s).stride < strideOf k id)
      (advanced : stride = ((k.pool s).stride + passOf k s) % 2 ^ 64)
  | oldest (none : before = []) (stuck : ∀ id ∈ k.queue.toList, strideOf k id = 2 ^ 64 - 1)
      (stays : stride = (k.pool s).stride)

/-- One turn moves the chosen entry to the end. -/
structure Turned (k after : Kernel) (s : Slot) (t : Tid) : Prop where
  moved : ∃ before rest, k.queue.toList = before ++ taskToId s t :: rest ∧
    after.queue.toList = before ++ rest ++ [taskToId s t] ∧ Choice k (after.pool s).stride s before
  kept : ∀ r, (after.pool r).priority = (k.pool r).priority
  others : ∀ r, r ≠ s → (after.pool r).stride = (k.pool r).stride

/-- The call takes out the chosen entry and advances the stride of its process. -/
structure Picked (k mid : Kernel) (s : Slot) (t : Tid) : Prop where
  taken : ∃ before rest, k.queue.toList = before ++ taskToId s t :: rest ∧ mid.queue.toList = before ++ rest ∧
    Choice k (mid.pool s).stride s before
  valid : mid.queue.Valid
  size : mid.queue.size = k.queue.size
  halted : mid.halted = k.halted
  kept : ∀ r, (mid.pool r).threads = (k.pool r).threads ∧ (mid.pool r).priority = (k.pool r).priority
  others : ∀ r, r ≠ s → (mid.pool r).stride = (k.pool r).stride

/-- Every position of the scan holds an entry. -/
theorem data_mem {q : Queue TaskId} {i : Nat} (inside : i < q.count) :
    q.data ((q.front + i) % q.size) ∈ q.toList := by
  have bound : i < q.toList.length := by rwa [Queue.toList_length]
  have entry : q.toList[i] = q.data ((q.front + i) % q.size) := by simp [Queue.toList]
  rw [← entry]
  exact List.getElem_mem bound

/-- Every entry stands at a position of the scan. -/
theorem mem_data {q : Queue TaskId} {id : TaskId} (member : id ∈ q.toList) :
    ∃ i, i < q.count ∧ q.data ((q.front + i) % q.size) = id := by
  obtain ⟨i, bound, entry⟩ := List.getElem_of_mem member
  rw [Queue.toList_length] at bound
  exact ⟨i, bound, by simpa [Queue.toList] using entry⟩

/-- The call takes an entry from a queue that has one. -/
theorem fetchTask_picked (contested : Contested k) (waiting : k.queue.toList ≠ []) :
    ∃ s t mid, fetchTask k = (some (taskToId s t), mid) ∧ Picked k mid s t := by
  have valid := contested.valid
  have room : k.queue.count < k.queue.size := by
    rw [← Queue.toList_length, contested.size]
    exact contested.room
  have length := fetchCount_room valid room
  have nonempty : k.queue.empty = false := by
    cases empty : k.queue.empty with
    | true =>
        have none := (Queue.count_eq_zero valid).mpr empty
        rw [← Queue.toList_length, List.length_eq_zero_iff] at none
        exact absurd none waiting
    | false => rfl
  have least : Least k k.queue.count (scan k) := by
    rw [← length]
    apply scan_least
    intro i inside
    rw [length] at inside
    exact contested.ready _ (data_mem inside)
  unfold Least at least
  cases found : (scan k).1 with
  | none =>
      simp only [found] at least
      cases popped : popQueue k.queue with
      | mk first rest =>
          cases first with
          | none => exact absurd ((Queue.popQueue_none valid).mp (by rw [popped])) waiting
          | some id =>
              obtain ⟨after, content, size⟩ := Queue.popQueue_some valid popped
              refine ⟨(idToTask id).1, (idToTask id).2, { k with queue := rest }, ?_, ?_⟩
              · rw [taskToId_idToTask]
                simp [fetchTask, nonempty, found, popped]
              · refine ⟨⟨[], rest.toList, ?_, rfl, ?_⟩, after, size, rfl, fun r => ⟨rfl, rfl⟩, fun r _ => rfl⟩
                · rw [taskToId_idToTask]
                  exact content
                · apply Choice.oldest rfl _ rfl
                  intro id member
                  obtain ⟨i, inside, entry⟩ := mem_data member
                  have above := least.2 i inside
                  have bound := contested.stride (idToTask id).1
                  rw [entry] at above
                  unfold strideOf at above ⊢
                  omega
  | some idx =>
      simp only [found] at least
      obtain ⟨i, inside, position, same, small, minimal, strict⟩ := least
      rw [same] at small minimal strict
      subst position
      obtain ⟨after, content, size⟩ := removeEntry_toList valid inside room
      have bound : i < k.queue.toList.length := by rwa [Queue.toList_length]
      have entry : k.queue.data ((k.queue.front + i) % k.queue.size) = k.queue.toList[i] := by simp [Queue.toList]
      obtain ⟨id, chosen⟩ : ∃ id, k.queue.data ((k.queue.front + i) % k.queue.size) = id := ⟨_, rfl⟩
      rw [chosen] at entry small minimal strict
      refine ⟨(idToTask id).1, (idToTask id).2, (fetchTask k).2, ?_, ?_⟩
      · rw [taskToId_idToTask]
        simp [fetchTask, nonempty, found, chosen]
      · have result : (fetchTask k).2 = ({ k with queue := removeEntry k.queue ((k.queue.front + i) % k.queue.size) }).setProcess
            (idToTask id).1 { k.pool (idToTask id).1 with
              stride := ((k.pool (idToTask id).1).stride + passOf k (idToTask id).1) % 2 ^ 64 } := by
          simp [fetchTask, nonempty, found, passOf, chosen]
        rw [result]
        refine ⟨⟨k.queue.toList.take i, k.queue.toList.drop (i + 1), ?_, ?_, ?_⟩, after, size, rfl, fun r => ?_, fun r other => ?_⟩
        · rw [taskToId_idToTask, entry, ← List.drop_eq_getElem_cons bound, List.take_append_drop]
        · rw [← List.eraseIdx_eq_take_drop_succ]
          exact content
        · apply Choice.least small
          · intro other member
            obtain ⟨j, within, here⟩ := mem_data member
            rw [← here]
            exact minimal j within
          · intro other member
            obtain ⟨j, within, here⟩ := List.getElem_of_mem member
            rw [List.length_take] at within
            rw [List.getElem_take] at here
            have earlier := strict j (by omega)
            have value : k.queue.data ((k.queue.front + j) % k.queue.size) = other := by
              rw [← here]
              simp [Queue.toList]
            rwa [value] at earlier
          · simp [Kernel.setProcess]
        · by_cases own : r = (idToTask id).1
          · rw [← own]
            simp [Kernel.setProcess]
          · simp [Kernel.setProcess, own]
        · simp [Kernel.setProcess, other]

/-- The scheduler runs the chosen thread. -/
theorem scheduler_step {mid : Kernel} (contested : Contested k) (fetched : fetchTask k = (some (taskToId s t), mid))
    (ready : Runnable mid s t) : step k .scheduler =
      some ({ mid.setThread s t .running with current := some (s, t) }, [.switched s t]) := by
  have state : (mid.pool s).threads t = .runnable := ready
  simp [step, contested.goes, contested.idle, scheduler, fetched, idToTask_taskToId, state, settle]

/-- The chosen thread gets the last entry again. -/
theorem yield_step {mid : Kernel} {queue : Queue TaskId} (goes : mid.halted = false)
    (pushed : pushQueue mid.queue (taskToId s t) = .ok queue) :
    step { mid.setThread s t .running with current := some (s, t) } .yield =
      some ({ (mid.setThread s t .running).setThread s t .runnable with queue, current := none }, []) := by
  simp [step, operate, yield, makeReady, addTask, settle, Kernel.setThread, Kernel.setProcess, goes, pushed]

/-- A turn runs one of the queued threads and leaves all of them queued. -/
theorem turn_turned (contested : Contested k) (waiting : k.queue.toList ≠ []) :
    ∃ s t after, turn k = some ((s, t), after) ∧ Contested after ∧ Turned k after s t := by
  obtain ⟨s, t, mid, fetched, picked⟩ := fetchTask_picked contested waiting
  obtain ⟨before, rest, content, left, choice⟩ := picked.taken
  have member : taskToId s t ∈ k.queue.toList := by simp [content]
  have ready := contested.ready _ member
  rw [idToTask_taskToId] at ready
  have scheduled := scheduler_step contested fetched (by rwa [Runnable, (picked.kept s).1])
  have shorter : mid.queue.count < mid.queue.size := by
    have length := congrArg List.length content
    have remaining := congrArg List.length left
    have room := contested.room
    rw [List.length_append, List.length_cons] at length
    rw [List.length_append, Queue.toList_length] at remaining
    rw [picked.size, contested.size]
    omega
  obtain ⟨queue, pushed⟩ := (Queue.pushQueue_isOk picked.valid (taskToId s t)).mpr shorter
  obtain ⟨valid, appended, size⟩ := Queue.pushQueue_ok picked.valid pushed
  obtain ⟨last, resumed⟩ : ∃ last, last = { ((mid.setThread s t .running).setThread s t .runnable) with
    queue, current := none } := ⟨_, rfl⟩
  have turned : turn k = some ((s, t), last) := by
    have yielded := yield_step (picked.halted.trans contested.goes) pushed
    simp only [turn, scheduled, Option.bind_some, yielded, Option.map_some, resumed]
  have process (r : Slot) : (last.pool r).priority = (k.pool r).priority ∧ (last.pool r).stride = (mid.pool r).stride ∧
      ∀ u, Runnable k r u → Runnable last r u := by
    rw [resumed, ← (picked.kept r).2]
    by_cases own : r = s
    · subst own
      refine ⟨by simp [Kernel.setThread, Kernel.setProcess], by simp [Kernel.setThread, Kernel.setProcess], fun u runs => ?_⟩
      by_cases same : u = t
      · simp [Runnable, Kernel.setThread, Kernel.setProcess, same]
      · rw [Runnable, ← (picked.kept r).1] at runs
        simpa [Runnable, Kernel.setThread, Kernel.setProcess, same] using runs
    · refine ⟨by simp [Kernel.setThread, Kernel.setProcess, own], by simp [Kernel.setThread, Kernel.setProcess, own], fun u runs => ?_⟩
      rw [Runnable, ← (picked.kept r).1] at runs
      simpa [Runnable, Kernel.setThread, Kernel.setProcess, own] using runs
  have listed : last.queue.toList = before ++ rest ++ [taskToId s t] := by
    rw [resumed]
    show queue.toList = _
    rw [appended, left]
  have members (id : TaskId) : id ∈ last.queue.toList ↔ id ∈ k.queue.toList := by
    rw [listed, content]
    simp only [List.mem_append, List.mem_cons, List.not_mem_nil, or_false]
    tauto
  refine ⟨s, t, last, turned, ?_, ?_⟩
  · constructor
    · rw [resumed]
    · rw [resumed]
      show mid.halted = false
      rw [picked.halted, contested.goes]
    · rw [resumed]
      exact valid
    · rw [resumed]
      show queue.size = queueSize
      rw [size, picked.size, contested.size]
    · have length := congrArg List.length content
      have room := contested.room
      rw [listed]
      simp only [List.length_append, List.length_cons, List.length_nil] at length ⊢
      omega
    · intro id entry
      exact (process _).2.2 _ (contested.ready id ((members id).mp entry))
    · rintro r ⟨id, entry, owner⟩
      rw [(process r).1]
      exact contested.priority r ⟨id, (members id).mp entry, owner⟩
    · intro r
      rw [(process r).2.1]
      by_cases own : r = s
      · subst own
        cases choice with
        | least small minimal strict advanced =>
            rw [advanced]
            exact Nat.mod_lt _ (by decide)
        | oldest none stuck stays =>
            rw [stays]
            exact contested.stride r
      · rw [picked.others r own]
        exact contested.stride r
  · refine ⟨⟨before, rest, content, listed, ?_⟩, fun r => (process r).1, fun r other => ?_⟩
    · rw [(process s).2.1]
      exact choice
    · rw [(process r).2.1]
      exact picked.others r other

/-- The queued processes stay the same. -/
theorem Turned.queued (turned : Turned k after s t) (r : Slot) : Queued after r ↔ Queued k r := by
  obtain ⟨before, rest, content, listed, _⟩ := turned.moved
  unfold Queued
  rw [content, listed]
  simp only [List.mem_append, List.mem_cons, List.not_mem_nil, or_false]
  constructor
  · rintro ⟨id, (earlier | later) | same, owner⟩
    · exact ⟨id, Or.inl earlier, owner⟩
    · exact ⟨id, Or.inr (Or.inr later), owner⟩
    · exact ⟨id, Or.inr (Or.inl same), owner⟩
  · rintro ⟨id, earlier | same | later, owner⟩
    · exact ⟨id, Or.inl (Or.inl earlier), owner⟩
    · exact ⟨id, Or.inr same, owner⟩
    · exact ⟨id, Or.inl (Or.inr later), owner⟩

/-- The thread that runs belongs to a queued process. -/
theorem Turned.chosen (turned : Turned k after s t) : Queued k s := by
  obtain ⟨before, rest, content, _, _⟩ := turned.moved
  exact ⟨taskToId s t, by simp [content], by rw [idToTask_taskToId]⟩

theorem Turned.pass (turned : Turned k after s t) (r : Slot) : passOf after r = passOf k r := by
  rw [passOf, passOf, turned.kept r]

end BtbuOs.Sched
