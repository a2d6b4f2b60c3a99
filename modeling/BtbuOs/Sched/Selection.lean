import BtbuOs.Lib.FirstLeast
import BtbuOs.Sched.Turns

namespace BtbuOs.Sched

open FirstLeast
open Sync (nthread)

/-- An entry is ready when it names a RUNNABLE thread. -/
def Ready (k : Kernel) (id : TaskId) : Prop := Runnable k (idToTask id).1 (idToTask id).2

instance (k : Kernel) : DecidablePred (Ready k) := fun _ => inferInstanceAs (Decidable (_ = _))

/-- These are the states of `task_queue` under its operations. -/
inductive RingReached : Queue TaskId → Prop where
  | init (data : Nat → TaskId) : RingReached (initQueue queueSize data)
  | push {q next : Queue TaskId} {id : TaskId} (reached : RingReached q) (pushed : pushQueue q id = .ok next) :
      RingReached next
  | pop {q : Queue TaskId} (reached : RingReached q) : RingReached (popQueue q).2
  | fetch {k : Kernel} (reached : RingReached k.queue) : RingReached (fetchTask k).2.queue

/-- The call returns one entry, takes exactly it out and adds the pass of its process to the stride. -/
structure Selected (k : Kernel) (before : List TaskId) (id : TaskId) (rest : List TaskId) : Prop where
  result : (fetchTask k).1 = some id
  entries : (fetchTask k).2.queue.toList = before ++ rest
  empty : (fetchTask k).2.queue.empty = true ↔ before ++ rest = []
  pool : (fetchTask k).2.pool = Function.update k.pool (idToTask id).1
    { k.pool (idToTask id).1 with stride := strideOf k id + passOf k (idToTask id).1 }

/-- A queue with a ready entry gives its first ready entry of the smallest stride. -/
def Selects (k : Kernel) : Prop :=
  (∃ id ∈ k.queue.toList, Ready k id) → ∃ before id rest, k.queue.toList = before ++ id :: rest ∧
    Preferred (Ready k) (strideOf k) before id rest ∧ Selected k before id rest

/-- The scan sees the preferred entry when the ring has a free slot and its stride is below the maximum. -/
def Seen (k : Kernel) (id : TaskId) : Prop := k.queue.toList.length < queueSize ∧ strideOf k id < 2 ^ 64 - 1

/-- A preferred entry that the scan sees needs room in its stride, and another one must be the oldest and keep its
stride. -/
def Selectable (k : Kernel) : Prop :=
  (∃ id ∈ k.queue.toList, Ready k id) → ∃ before id rest, k.queue.toList = before ++ id :: rest ∧
    Preferred (Ready k) (strideOf k) before id rest ∧
    (Seen k id → strideOf k id + passOf k (idToTask id).1 < 2 ^ 64) ∧
    (¬Seen k id → before = [] ∧ passOf k (idToTask id).1 = 0)

variable {k : Kernel}

theorem popQueue_valid {q : Queue TaskId} (valid : q.Valid) :
    (popQueue q).2.Valid ∧ (popQueue q).2.size = q.size := by
  cases popped : popQueue q with
  | mk first rest =>
      cases first with
      | none =>
          rw [Queue.popQueue_none_eq popped]
          exact ⟨valid, rfl⟩
      | some id =>
          obtain ⟨after, _, size⟩ := Queue.popQueue_some valid popped
          exact ⟨after, size⟩

theorem RingReached.valid {q : Queue TaskId} (reached : RingReached q) : q.Valid ∧ q.size = queueSize := by
  induction reached with
  | init data => exact ⟨Queue.initQueue_valid (by decide) data, rfl⟩
  | push reached pushed ih =>
      obtain ⟨valid, _, size⟩ := Queue.pushQueue_ok ih.1 pushed
      exact ⟨valid, size.trans ih.2⟩
  | pop reached ih =>
      obtain ⟨valid, size⟩ := popQueue_valid ih.1
      exact ⟨valid, size.trans ih.2⟩
  | @fetch k reached ih =>
      rcases fetchTask_fetched ih.1 (Prod.mk.eta (p := fetchTask k)).symm with ⟨_, nothing⟩ | ⟨id, _, taken⟩
      · have empty : k.queue.empty = true := by
          rw [← Queue.count_eq_zero ih.1, ← Queue.toList_length, nothing]
          rfl
        rw [fetchTask, if_pos empty]
        exact ih
      · exact ⟨taken.valid, taken.size.trans ih.2⟩

/-- The scan goes through the window from the front. -/
theorem scan_best (k : Kernel) (rounds : Nat) :
    ∃ best, Best (Ready k) (strideOf k) (2 ^ 64 - 1) (Ring.window k.queue.data k.queue.size k.queue.front rounds) best ∧
      (List.range rounds).foldl (scanEntry k) (none, 2 ^ 64 - 1) =
        (best.1.map fun i => (k.queue.front + i) % k.queue.size, best.2) := by
  induction rounds with
  | zero => exact ⟨_, Best.none fun value member => absurd member (by simp), rfl⟩
  | succ rounds ih =>
      obtain ⟨best, state, folded⟩ := ih
      have next := state.round (k.queue.data ((k.queue.front + rounds) % k.queue.size))
      rw [← Ring.window_snoc, Ring.window_length] at next
      refine ⟨_, next, ?_⟩
      rw [List.range_succ, List.foldl_append, List.foldl_cons, List.foldl_nil, folded]
      unfold scanEntry scanRound
      dsimp only
      by_cases ready : Ready k (k.queue.data ((k.queue.front + rounds) % k.queue.size))
      · have state : (k.pool (idToTask (k.queue.data ((k.queue.front + rounds) % k.queue.size))).1).threads
            (idToTask (k.queue.data ((k.queue.front + rounds) % k.queue.size))).2 = .runnable := ready
        rw [if_pos ready, if_neg (by simp [state])]
        unfold strideOf
        split <;> rfl
      · have state : (k.pool (idToTask (k.queue.data ((k.queue.front + rounds) % k.queue.size))).1).threads
            (idToTask (k.queue.data ((k.queue.front + rounds) % k.queue.size))).2 ≠ .runnable := ready
        rw [if_neg ready, if_pos state]

/-- The scan of a ring with a free slot looks at every entry, and the scan of a full ring looks at none. -/
theorem scan_entries (valid : k.queue.Valid) (size : k.queue.size = queueSize) :
    ∃ best seen, Best (Ready k) (strideOf k) (2 ^ 64 - 1) seen best ∧
      scan k = (best.1.map fun i => (k.queue.front + i) % k.queue.size, best.2) ∧
      seen = if k.queue.toList.length < queueSize then k.queue.toList else [] := by
  obtain ⟨best, state, folded⟩ := scan_best k (fetchCount k.queue)
  refine ⟨best, _, state, folded, ?_⟩
  rw [Queue.toList_length, ← size]
  split
  · rename_i room
    rw [fetchCount_room valid room, Queue.toList]
  · rename_i full
    rw [Nat.eq_zero_of_not_pos fun positive => full (fetchCount_eq valid positive).2, Ring.window_zero]

/-- An entry that the scan sees is taken out by the shift. -/
theorem selected_seen (valid : k.queue.Valid) (size : k.queue.size = queueSize) {before rest : List TaskId} {id : TaskId}
    (entries : k.queue.toList = before ++ id :: rest) (preferred : Preferred (Ready k) (strideOf k) before id rest)
    (seen : Seen k id) : ∃ idx, fetchTask k = (some id, ({ k with queue := removeEntry k.queue idx } : Kernel).setProcess
        (idToTask id).1 { k.pool (idToTask id).1 with
          stride := (strideOf k id + passOf k (idToTask id).1) % 2 ^ 64 }) ∧
      (removeEntry k.queue idx).Valid ∧ (removeEntry k.queue idx).toList = before ++ rest := by
  have inside : before.length < k.queue.count := by
    rw [← Queue.toList_length, entries]
    simp
  have nonempty : k.queue.empty = false := by
    rw [← Bool.not_eq_true, ← Queue.count_eq_zero valid]
    omega
  have entry : k.queue.data ((k.queue.front + before.length) % k.queue.size) = id := by
    have place : k.queue.toList[before.length]? = some id := by simp [entries]
    obtain ⟨bound, value⟩ := List.getElem?_eq_some_iff.mp place
    simpa [Queue.toList] using value
  have found : (scan k).1 = some ((k.queue.front + before.length) % k.queue.size) := by
    obtain ⟨best, visited, state, result, range⟩ := scan_entries valid size
    rw [if_pos seen.1] at range
    rw [result]
    subst range
    cases state with
    | none above =>
        have high := above id (by simp [entries]) preferred.able
        have low := seen.2
        omega
    | some others other tail split chosen below =>
        obtain ⟨rfl, -, -⟩ := preferred.unique chosen (entries.symm.trans split)
        rfl
  have room : k.queue.count < k.queue.size := by
    rw [← Queue.toList_length, size]
    exact seen.1
  obtain ⟨after, content, _⟩ := removeEntry_toList valid inside room
  refine ⟨(k.queue.front + before.length) % k.queue.size, ?_, after, ?_⟩
  · simp [fetchTask, nonempty, found, entry, strideOf, passOf]
  · rw [content, entries, List.eraseIdx_append_of_length_le (Nat.le_refl _)]
    simp

/-- The oldest entry is popped when the scan sees no ready entry. -/
theorem fetchTask_unseen (valid : k.queue.Valid) (size : k.queue.size = queueSize)
    (unseen : ∀ id ∈ k.queue.toList, Ready k id → ¬Seen k id) :
    fetchTask k = ((popQueue k.queue).1, { k with queue := (popQueue k.queue).2 }) := by
  have blind : (scan k).1 = none := by
    obtain ⟨best, visited, state, result, range⟩ := scan_entries valid size
    rw [result]
    cases state with
    | none above => rfl
    | some before id rest split chosen below =>
        subst split
        split at range
        · rename_i room
          exact absurd ⟨room, below⟩ (unseen id (by simp [← range]) chosen.able)
        · simp at range
  unfold fetchTask
  split
  · rename_i empty
    simp [popQueue, empty]
  · rw [blind]

theorem empty_iff {q : Queue TaskId} (valid : q.Valid) : q.empty = true ↔ q.toList = [] := by
  rw [← Queue.count_eq_zero valid, ← Queue.toList_length, List.length_eq_zero_iff]

/-- When the scan does not see the preferred entry, it sees no ready entry. -/
theorem unseen_all {before rest : List TaskId} {id : TaskId} (entries : k.queue.toList = before ++ id :: rest)
    (preferred : Preferred (Ready k) (strideOf k) before id rest) (unseen : ¬Seen k id) :
    ∀ other ∈ k.queue.toList, Ready k other → ¬Seen k other := by
  intro other member ready seen
  rw [entries] at member
  exact unseen ⟨seen.1, Nat.lt_of_le_of_lt (preferred.le member ready) seen.2⟩

/-- The preferred entry is selected under its condition. -/
theorem Selected.of_selectable (valid : k.queue.Valid) (size : k.queue.size = queueSize) {before rest : List TaskId}
    {id : TaskId} (entries : k.queue.toList = before ++ id :: rest)
    (preferred : Preferred (Ready k) (strideOf k) before id rest)
    (room : Seen k id → strideOf k id + passOf k (idToTask id).1 < 2 ^ 64)
    (oldest : ¬Seen k id → before = [] ∧ passOf k (idToTask id).1 = 0) : Selected k before id rest := by
  by_cases seen : Seen k id
  · obtain ⟨idx, fetched, after, content⟩ := selected_seen valid size entries preferred seen
    rw [Nat.mod_eq_of_lt (room seen)] at fetched
    refine ⟨by rw [fetched], by rw [fetched]; exact content, ?_, by rw [fetched]; rfl⟩
    rw [fetched, ← content]
    exact empty_iff after
  · obtain ⟨rfl, still⟩ := oldest seen
    have fetched := fetchTask_unseen valid size (unseen_all entries preferred seen)
    cases popped : popQueue k.queue with
    | mk first queue =>
        rw [popped] at fetched
        cases first with
        | none =>
            rw [(Queue.popQueue_none valid).mp (by rw [popped])] at entries
            simp at entries
        | some oldest =>
            obtain ⟨after, content, _⟩ := Queue.popQueue_some valid popped
            obtain ⟨rfl, rfl⟩ : oldest = id ∧ queue.toList = rest := by
              rw [content] at entries
              simpa using entries
            refine ⟨by rw [fetched], by rw [fetched]; rfl, ?_, ?_⟩
            · rw [fetched]
              exact empty_iff after
            · rw [fetched, still]
              exact (Function.update_eq_self _ _).symm

/-- A preferred entry that is selected meets its condition. -/
theorem Selected.selectable (valid : k.queue.Valid) (size : k.queue.size = queueSize) {before rest : List TaskId}
    {id : TaskId} (entries : k.queue.toList = before ++ id :: rest)
    (preferred : Preferred (Ready k) (strideOf k) before id rest) (selected : Selected k before id rest) :
    (Seen k id → strideOf k id + passOf k (idToTask id).1 < 2 ^ 64) ∧
      (¬Seen k id → before = [] ∧ passOf k (idToTask id).1 = 0) := by
  have advanced : ((fetchTask k).2.pool (idToTask id).1).stride = strideOf k id + passOf k (idToTask id).1 := by
    rw [selected.pool, Function.update_self]
  constructor
  · intro seen
    obtain ⟨idx, fetched, _, _⟩ := selected_seen valid size entries preferred seen
    rw [fetched] at advanced
    have wrapped : (strideOf k id + passOf k (idToTask id).1) % 2 ^ 64 = strideOf k id + passOf k (idToTask id).1 := by
      simpa [Kernel.setProcess] using advanced
    rw [← wrapped]
    exact Nat.mod_lt _ (by decide)
  · intro unseen
    have fetched := fetchTask_unseen valid size (unseen_all entries preferred unseen)
    have still : strideOf k id = strideOf k id + passOf k (idToTask id).1 := by
      rw [fetched] at advanced
      exact advanced
    have result := selected.result
    rw [fetched] at result
    have popped : popQueue k.queue = (some id, (popQueue k.queue).2) := Prod.ext result rfl
    obtain ⟨_, content, _⟩ := Queue.popQueue_some valid popped
    refine ⟨?_, by omega⟩
    cases before with
    | nil => rfl
    | cons head others =>
        rw [content] at entries
        have same : id = head := by simpa using (List.cons.inj entries).1
        have earlier := preferred.first head List.mem_cons_self (same ▸ preferred.able)
        rw [same] at earlier
        exact absurd earlier (Nat.lt_irrefl _)

/-- The call takes the first RUNNABLE entry of the smallest stride out of the ring exactly when the scan sees it and its
stride has room, or when it is the oldest entry and its stride stays. -/
theorem task_selected (reached : RingReached k.queue) : Selects k ↔ Selectable k := by
  obtain ⟨valid, size⟩ := reached.valid
  constructor
  · intro selects some
    obtain ⟨before, id, rest, entries, preferred, selected⟩ := selects some
    exact ⟨before, id, rest, entries, preferred, selected.selectable valid size entries preferred⟩
  · intro selectable some
    obtain ⟨before, id, rest, entries, preferred, room, oldest⟩ := selectable some
    exact ⟨before, id, rest, entries, preferred, Selected.of_selectable valid size entries preferred room oldest⟩

/-- Every thread of this kernel is RUNNABLE. -/
def busyKernel (queue : Queue TaskId) (strides : Slot → Nat) : Kernel :=
  { freshKernel with
    pool := fun s => { freshKernel.pool s with threads := fun _ => .runnable, priority := 16, stride := strides s }
    queue }

/-- Three threads of two processes wait, and the second entry belongs to the process of the smaller stride. -/
theorem task_selected_run : ∃ queue, RingReached queue ∧ queue.toList = [0, 16, 1] ∧
    Selects (busyKernel queue fun s => if s = 0 then 5 else 3) := by
  have one : RingReached ⟨Function.update (fun _ => 0) 0 0, queueSize, 0, 1, false⟩ :=
    (RingReached.init fun _ => 0).push (show pushQueue _ 0 = _ from rfl)
  have two : RingReached ⟨Function.update (Function.update (fun _ => 0) 0 0) 1 16, queueSize, 0, 2, false⟩ :=
    one.push (show pushQueue _ 16 = _ from rfl)
  have three : RingReached ⟨Function.update (Function.update (Function.update (fun _ => 0) 0 0) 1 16) 2 1, queueSize, 0, 3,
      false⟩ := two.push (show pushQueue _ 1 = _ from rfl)
  refine ⟨_, three, by decide, (task_selected (k := busyKernel _ _) three).mpr fun _ => ?_⟩
  refine ⟨[0], 16, [1], by decide, ⟨by decide +kernel, by decide +kernel, by decide +kernel⟩, fun _ => by decide +kernel, fun unseen => ?_⟩
  exact absurd ⟨by decide +kernel, by decide +kernel⟩ unseen

/-- This function reduces a number to an entry. -/
def entryOf (n : Nat) : TaskId := ⟨n % (nproc * nthread), Nat.mod_lt _ (by decide)⟩

/-- Pushes fill the ring with the first entries. -/
theorem RingReached.filled (n : Nat) (fits : n ≤ queueSize) :
    ∃ queue, RingReached queue ∧ queue.toList = (List.range n).map entryOf := by
  induction n with
  | zero => exact ⟨_, .init fun _ => 0, rfl⟩
  | succ n ih =>
      obtain ⟨queue, reached, entries⟩ := ih (by omega)
      obtain ⟨valid, size⟩ := reached.valid
      have room : queue.count < queue.size := by
        rw [← Queue.toList_length, entries, size, List.length_map, List.length_range]
        omega
      obtain ⟨next, pushed⟩ := (Queue.pushQueue_isOk valid (entryOf n)).mpr room
      refine ⟨next, reached.push pushed, ?_⟩
      rw [(Queue.pushQueue_ok valid pushed).2.1, entries, List.range_succ, List.map_append]
      rfl

/-- A full ring gives its oldest entry, although the process of the last one has a smaller stride. -/
theorem full_ring_unscanned : ¬∀ k : Kernel, RingReached k.queue → Selects k := by
  intro claim
  obtain ⟨queue, reached, entries⟩ := RingReached.filled queueSize (Nat.le_refl _)
  obtain ⟨valid, size⟩ := reached.valid
  obtain ⟨k, same⟩ : ∃ k, k = busyKernel queue fun s => if s = 0 then 1 else 0 := ⟨_, rfl⟩
  have listed : k.queue.toList = (List.range queueSize).map entryOf := by
    rw [same]
    exact entries
  have ready (id : TaskId) : Ready k id := by
    rw [same]
    rfl
  have member (n : Nat) (inside : n < queueSize) : entryOf n ∈ k.queue.toList := by
    rw [listed]
    exact List.mem_map_of_mem (List.mem_range.mpr inside)
  obtain ⟨before, id, rest, split, preferred, selected⟩ := claim k (by rw [same]; exact reached) ⟨_, member 0 (by decide), ready _⟩
  have unseen : ¬Seen k id := fun seen => by
    have short := seen.1
    rw [listed, List.length_map, List.length_range] at short
    exact absurd short (Nat.lt_irrefl _)
  obtain ⟨rfl, _⟩ := (selected.selectable (by rw [same]; exact valid) (by rw [same]; exact size) split preferred).2 unseen
  have first : id = 0 := by
    rw [listed, show queueSize = 1023 + 1 from rfl, List.range_succ_eq_map] at split
    exact (List.cons.inj split).1.symm
  have small := preferred.le (split ▸ member 16 (by decide)) (ready _)
  rw [first, same] at small
  exact absurd small (show ¬1 ≤ 0 by decide)

end BtbuOs.Sched
