import BtbuOs.Sched.Fetch
import BtbuOs.Sync.Tally

namespace BtbuOs.Sync

open Machine

/-- The thread gets the last place of the run queue, or the kernel panics because that queue is full. -/
def Queues (k : Sched.Kernel) (s : Sched.Slot) (next : Tid) (threads : Tid → ThreadState) : Prop :=
  (∃ after, Sched.wake k s next = some (.ok (after, [])) ∧ (after.pool s).threads = threads ∧
    after.queue.toList = k.queue.toList ++ [Sched.taskToId s next]) ∨
  k.queue.count = k.queue.size ∧ ∃ message, Sched.wake k s next = some (.error message)

/-- The oldest waiter of the queue becomes RUNNABLE and queued, and no other thread or wait queue changes. -/
structure Wakes (p q : Proc) (w : WaitId) (next : Tid) (rest : List Tid) : Prop where
  threads : q.threads = Function.update p.threads next .runnable
  queue : (q.waitQueue w).toList = rest
  others : ∀ u, u ≠ w → q.waitQueue u = p.waitQueue u
  queued : ∀ (k : Sched.Kernel) (s : Sched.Slot), k.queue.Valid → (k.pool s).threads = p.threads →
    Queues k s next q.threads

/-- No wake-up is lost. -/
structure Wakeful (p : Proc) : Prop where
  asleep : ∀ t, p.threads t = .sleeping ↔ ∃ w, p.Created w ∧ (p.waitQueue w).toList.count t = 1 ∧
    ∀ u, u ≠ w → p.Created u → t ∉ (p.waitQueue u).toList
  room : ∀ t w cont, p.current = some t → p.Created w → ∃ q, p.block t w cont = .ok q ∧ q.threads t = .sleeping ∧
    (q.waitQueue w).toList = (p.waitQueue w).toList ++ [t]
  unlock : ∀ t m next rest, p.Created (.mutex m) → (p.waitQueue (.mutex m)).toList = next :: rest →
    Wakes p (mutexUnlock p t m).1 (.mutex m) next rest
  up : ∀ t s next rest, p.Created (.semaphore s) → (p.waitQueue (.semaphore s)).toList = next :: rest →
    ∃ q events, semaphoreUp p t s = .ok (q, events) ∧ Wakes p q (.semaphore s) next rest
  signal : ∀ c next rest, p.Created (.condvar c) → (p.waitQueue (.condvar c)).toList = next :: rest →
    Wakes p (condSignal p c) (.condvar c) next rest
  wait : ∀ t c m, p.current = some t → p.Created (.condvar c) → ∃ q, condWait p t c m = .ok (q, [.unlocked t m]) ∧
    q.threads t = .sleeping ∧ (q.waitQueue (.condvar c)).toList = (p.waitQueue (.condvar c)).toList ++ [t]
  waits : ∀ t c m, p.threads t = .sleeping → p.conts t = .inWait c m → t ∈ (p.waitQueue (.condvar c)).toList

/-- Every wait queue has a place for each thread. -/
def Sized (v : View) : Prop := ∀ w, v.created w → (v.queues w).size = waitQueueMaxLength

variable {p q : Proc} {t : Tid} {trace events : List Event}

theorem Sized.setQueue {v : View} (sized : Sized v) {w : WaitId} {ring : Queue Tid}
    (same : ring.size = (v.queues w).size) : Sized (v.setQueue w ring) := by
  intro u made
  by_cases own : u = w
  · subst own
    simpa [View.setQueue, same] using sized u made
  · simpa [View.setQueue, own] using sized u made

/-- A new primitive starts with a queue of full size. -/
theorem Sized.create {v : View} (sized : Sized v) {w : WaitId} {ring : Queue Tid} {made : Prop}
    (full : made → ring.size = waitQueueMaxLength) {known : LockId → Prop} {created : WaitId → Prop}
    (fresh : ¬v.created w) (enlarged : ∀ u, created u ↔ v.created u ∨ u = w ∧ made) :
    Sized { v with known, created, queues := Function.update v.queues w ring } := by
  intro u present
  rcases (enlarged u).mp present with existing | ⟨rfl, new⟩
  · have other : u ≠ w := by
      rintro rfl
      exact fresh existing
    simpa [other] using sized u existing
  · simpa using full new

/-- Every effect leaves the queues at their size. -/
theorem Micro.sized {label : Label} (effect : Micro p label events q) (wf : p.Wf) (sized : Sized p.view) :
    Sized q.view := by
  cases effect with
  | report | detect | preempt | dispatch | clearMutexRequest | clearSemRequest | poll | leaveSpin | resumeLock
  | resumeDown | start | collect | exit | exitProcess => exact sized
  | createMutex blocking fresh ring valid full =>
      simp only [Proc.view, waitQueue_createMutex]
      exact sized.create full (fresh_mutex fresh) (created_createMutex _ fresh)
  | createSemaphore count fresh ring valid full =>
      simp only [Proc.view, waitQueue_createSemaphore]
      exact sized.create (fun _ => full) (fresh_semaphore fresh) (created_createSemaphore _ fresh)
  | createCondvar fresh ring valid full =>
      simp only [Proc.view, waitQueue_createCondvar]
      exact sized.create (fun _ => full) (fresh_condvar fresh) (created_createCondvar _ fresh)
  | take runs known free =>
      change Sized (p.setLocked _ true).view
      rwa [view_setLocked]
  | release runs known unclaimed =>
      change Sized (p.setLocked _ false).view
      rwa [view_setLocked]
  | wait runs known busy blocks pushed =>
      rename_i t m ring
      have made : p.view.created (.mutex m) := ⟨known, blocks⟩
      change Sized (p.setWaitQueue (.mutex m) ring).view
      rw [view_setWaitQueue]
      exact sized.setQueue (Queue.pushQueue_ok ((wf.alive (Or.inl runs)).rings _ made) pushed).2.2
  | handOver runs known blocks popped =>
      rename_i t m next ring
      have made : p.view.created (.mutex m) := ⟨known, blocks⟩
      change Sized (p.setWaitQueue (.mutex m) ring).view
      rw [view_setWaitQueue]
      exact sized.setQueue (Queue.popQueue_some ((wf.alive (Or.inl runs)).rings _ made) popped).2.2
  | «raise» runs known free => rwa [view_semaphoreRelease]
  | raiseWake runs known owed popped =>
      rename_i t s next ring
      have made : p.view.created (.semaphore s) := known
      change Sized ((semaphoreRelease p t s).setWaitQueue (.semaphore s) ring).view
      rw [view_setWaitQueue, view_semaphoreRelease]
      exact sized.setQueue (Queue.popQueue_some ((wf.alive (Or.inl runs)).rings _ made) popped).2.2
  | lower runs known free =>
      change Sized (p.setCount _ _).view
      rwa [view_setCount]
  | lowerBlock runs known spent pushed =>
      rename_i t s ring
      have made : p.view.created (.semaphore s) := known
      change Sized ((p.setCount s _).setWaitQueue (.semaphore s) ring).view
      rw [view_setWaitQueue, view_setCount]
      exact sized.setQueue (Queue.pushQueue_ok ((wf.alive (Or.inl runs)).rings _ made) pushed).2.2
  | signal runs known popped =>
      rename_i c next t ring
      have made : p.view.created (.condvar c) := known
      change Sized (p.setWaitQueue (.condvar c) ring).view
      rw [view_setWaitQueue]
      exact sized.setQueue (Queue.popQueue_some ((wf.alive (Or.inl runs)).rings _ made) popped).2.2
  | waitCond runs made known pushed =>
      rename_i t c m ring
      have present : p.view.created (.condvar c) := made
      change Sized (p.setWaitQueue (.condvar c) ring).view
      rw [view_setWaitQueue]
      exact sized.setQueue (Queue.pushQueue_ok ((wf.alive (Or.inl runs)).rings _ present) pushed).2.2

/-- The waiters and the running thread are different threads, so a queue of one place for each is never full. -/
theorem push_succeeds (wf : p.view.Wf) (sized : Sized p.view) (runs : p.current = some t) {w : WaitId}
    (made : p.Created w) : ∃ ring, pushQueue (p.waitQueue w) t = .ok ring ∧
      ring.toList = (p.waitQueue w).toList ++ [t] := by
  have valid : (p.waitQueue w).Valid := wf.rings w made
  have absent : t ∉ (p.waitQueue w).toList := by
    intro member
    have asleep := (wf.queued w t made member).1
    exact wf.current_awake runs asleep
  have distinct : (t :: (p.waitQueue w).toList).Nodup := List.nodup_cons.mpr ⟨absent, wf.nodup w made⟩
  have bound := distinct.length_le_card
  rw [List.length_cons, Queue.toList_length, Fintype.card_fin] at bound
  have full : (p.waitQueue w).size = waitQueueMaxLength := sized w made
  obtain ⟨ring, pushed⟩ := (Queue.pushQueue_isOk valid t).mpr (by
    rw [full, waitQueueMaxLength]
    exact bound)
  exact ⟨ring, pushed, (Queue.pushQueue_ok valid pushed).2.1⟩

/-- The wake-up of a sleeping thread queues it unless the run queue is full. -/
theorem queues_of_sleeping {k : Sched.Kernel} {s : Sched.Slot} {next : Tid} (valid : k.queue.Valid)
    (threads : (k.pool s).threads = p.threads) (asleep : p.threads next = .sleeping) :
    Queues k s next (Function.update p.threads next .runnable) := by
  have sleeping : (k.pool s).threads next = .sleeping := by rw [threads, asleep]
  cases pushed : pushQueue k.queue (Sched.taskToId s next) with
  | error message =>
      have full : ¬k.queue.count < k.queue.size := by
        rw [← Queue.pushQueue_isOk valid (Sched.taskToId s next)]
        simp [pushed]
      have bound := Queue.count_le valid
      refine Or.inr ⟨by omega, message, ?_⟩
      simp [Sched.wake, sleeping, Sched.makeReady, Sched.addTask, Sched.Kernel.setThread, Sched.Kernel.setProcess, pushed]
  | ok ring =>
      obtain ⟨_, content, _⟩ := Queue.pushQueue_ok valid pushed
      refine Or.inl ⟨{ k.setThread s next .runnable with queue := ring }, ?_, ?_, content⟩
      · simp [Sched.wake, sleeping, Sched.makeReady, Sched.addTask, Sched.Kernel.setThread, Sched.Kernel.setProcess, pushed]
      · simp [Sched.Kernel.setThread, Sched.Kernel.setProcess, threads]

/-- A queue with content gives its head. -/
theorem pop_head (wf : p.view.Wf) {w : WaitId} (made : p.Created w) {next : Tid} {rest : List Tid}
    (waiters : (p.waitQueue w).toList = next :: rest) :
    ∃ ring, popQueue (p.waitQueue w) = (some next, ring) ∧ ring.toList = rest := by
  have valid : (p.waitQueue w).Valid := wf.rings w made
  cases popped : popQueue (p.waitQueue w) with
  | mk first ring =>
      cases first with
      | none =>
          have empty := (Queue.popQueue_none valid).mp (by rw [popped])
          rw [waiters] at empty
          contradiction
      | some head =>
          obtain ⟨_, content, _⟩ := Queue.popQueue_some valid popped
          rw [waiters, List.cons.injEq] at content
          obtain ⟨rfl, rfl⟩ := content
          exact ⟨ring, rfl, rfl⟩

/-- An operation that pops a waiter and marks it RUNNABLE wakes it. -/
theorem wakes_of_popped (wf : p.view.Wf) {w : WaitId} (made : p.Created w) {next : Tid} {ring : Queue Tid}
    (popped : popQueue (p.waitQueue w) = (some next, ring)) (threads : q.threads = Function.update p.threads next .runnable)
    (queues : q.waitQueue = Function.update p.waitQueue w ring) : Wakes p q w next ring.toList where
  threads := threads
  queue := by rw [queues, Function.update_self]
  others u other := by rw [queues, Function.update_of_ne other]
  queued k s valid same := by
    rw [threads]
    exact queues_of_sleeping valid same (popped_facts wf made popped).2.1

theorem mutexUnlock_wakes (wf : p.view.Wf) {m : LockId} (made : p.Created (.mutex m)) {next : Tid} {rest : List Tid}
    (waiters : (p.waitQueue (.mutex m)).toList = next :: rest) : Wakes p (mutexUnlock p t m).1 (.mutex m) next rest := by
  obtain ⟨ring, popped, rfl⟩ := pop_head wf made waiters
  have unlocked : (mutexUnlock p t m).1 = { (p.setWaitQueue (.mutex m) ring).setThread next .runnable with
      mutexAllocation := (p.mutexAllocation.set t m 0).set next m 1
      mutexRequest := p.mutexRequest.set next m 0 } := by
    simp only [mutexUnlock, made.2, if_true, Proc.wake, popped]
    rfl
  rw [unlocked]
  apply wakes_of_popped wf made popped
  · rfl
  · exact waitQueue_setWaitQueue p (.mutex m) ring

theorem semaphoreUp_wakes (wf : p.view.Wf) {res : LockId → Int} (balanced : Balanced res p trace) {s : LockId}
    (positive : 0 ≤ res s) (made : p.Created (.semaphore s)) {next : Tid} {rest : List Tid}
    (waiters : (p.waitQueue (.semaphore s)).toList = next :: rest) :
    ∃ q events, semaphoreUp p t s = .ok (q, events) ∧ Wakes p q (.semaphore s) next rest := by
  obtain ⟨ring, popped, rfl⟩ := pop_head wf made waiters
  have waiting := balanced.queue s made
  rw [waiters, queueLength, if_pos positive, List.length_cons] at waiting
  have owed : ((semaphoreRelease p t s).semaphorePool s).count ≤ 0 := by
    rw [semaphoreRelease_count, if_pos rfl]
    omega
  have threads : (semaphoreRelease p t s).threads = p.threads := (semaphoreRelease_threads p t s).1
  have done : ∃ q events, semaphoreUp p t s = .ok (q, events) ∧ q.threads = Function.update p.threads next .runnable ∧
      q.waitQueue = Function.update p.waitQueue (.semaphore s) ring := by
    simp only [semaphoreUp, owed, if_true, Proc.wake, semaphoreRelease_waitQueue, popped]
    refine ⟨_, _, rfl, ?_, ?_⟩
    · show Function.update (semaphoreRelease p t s).threads next .runnable = _
      rw [threads]
    · show ((semaphoreRelease p t s).setWaitQueue (.semaphore s) ring).waitQueue = _
      rw [waitQueue_setWaitQueue, semaphoreRelease_waitQueue]
  obtain ⟨q, events, result, woken, queues⟩ := done
  exact ⟨q, events, result, wakes_of_popped wf made popped woken queues⟩

theorem condSignal_wakes (wf : p.view.Wf) {c : LockId} (made : p.Created (.condvar c)) {next : Tid} {rest : List Tid}
    (waiters : (p.waitQueue (.condvar c)).toList = next :: rest) : Wakes p (condSignal p c) (.condvar c) next rest := by
  obtain ⟨ring, popped, rfl⟩ := pop_head wf made waiters
  have signalled : condSignal p c = (p.setWaitQueue (.condvar c) ring).setThread next .runnable := by
    simp only [condSignal, Proc.wake, popped]
  rw [signalled]
  apply wakes_of_popped wf made popped
  · rfl
  · exact waitQueue_setWaitQueue p (.condvar c) ring

/-- The unlock inside `cond_wait` leaves the condition variable alone. -/
theorem mutexUnlock_condvar (p : Proc) (t : Tid) (m c : LockId) :
    (mutexUnlock p t m).1.waitQueue (.condvar c) = p.waitQueue (.condvar c) ∧ (mutexUnlock p t m).2 = [.unlocked t m] := by
  unfold mutexUnlock
  split
  · cases popped : popQueue (p.waitQueue (.mutex m)) with
    | mk first ring =>
        cases first with
        | none | some next =>
            simp only [Proc.wake, popped]
            exact ⟨rfl, trivial⟩
  · exact ⟨rfl, rfl⟩

theorem condWait_sleeps (wf : p.view.Wf) (sized : Sized p.view) (runs : p.current = some t) {c : LockId} (m : LockId)
    (made : p.Created (.condvar c)) : ∃ q, condWait p t c m = .ok (q, [.unlocked t m]) ∧ q.threads t = .sleeping ∧
      (q.waitQueue (.condvar c)).toList = (p.waitQueue (.condvar c)).toList ++ [t] := by
  obtain ⟨ring, pushed, content⟩ := push_succeeds wf sized runs made
  obtain ⟨queue, emitted⟩ := mutexUnlock_condvar p t m c
  cases unlocked : mutexUnlock p t m with
  | mk u events =>
      rw [unlocked] at queue emitted
      obtain rfl := emitted
      change u.waitQueue (.condvar c) = p.waitQueue (.condvar c) at queue
      refine ⟨((u.setWaitQueue (.condvar c) ring).setThread t .sleeping).sched t (.inWait c m), ?_, ?_, ?_⟩
      · simp only [condWait, unlocked, Proc.block, queue, pushed]
      · exact Function.update_self t _ _
      · show ((u.setWaitQueue (.condvar c) ring).waitQueue (.condvar c)).toList = _
        rw [waitQueue_setWaitQueue, Function.update_self, content]

theorem block_sleeps (wf : p.view.Wf) (sized : Sized p.view) (runs : p.current = some t) {w : WaitId} (cont : Cont)
    (made : p.Created w) : ∃ q, p.block t w cont = .ok q ∧ q.threads t = .sleeping ∧
      (q.waitQueue w).toList = (p.waitQueue w).toList ++ [t] := by
  obtain ⟨ring, pushed, content⟩ := push_succeeds wf sized runs made
  refine ⟨((p.setWaitQueue w ring).setThread t .sleeping).sched t cont, ?_, ?_, ?_⟩
  · simp only [Proc.block, pushed]
  · exact Function.update_self t _ _
  · show ((p.setWaitQueue w ring).waitQueue w).toList = _
    rw [waitQueue_setWaitQueue, Function.update_self, content]

/-- A thread sleeps exactly in one queue. -/
theorem asleep_iff (wf : p.view.Wf) (t : Tid) : p.threads t = .sleeping ↔ ∃ w, p.Created w ∧
    (p.waitQueue w).toList.count t = 1 ∧ ∀ u, u ≠ w → p.Created u → t ∉ (p.waitQueue u).toList := by
  constructor
  · intro asleep
    obtain ⟨w, waits, made, member⟩ := wf.asleep t asleep
    refine ⟨w, made, List.count_eq_one_of_mem (wf.nodup w made) member, fun u other present also => ?_⟩
    have elsewhere := (wf.queued u t present also).2
    rw [waits] at elsewhere
    exact other (Option.some.inj elsewhere).symm
  · rintro ⟨w, made, once, _⟩
    apply And.left
    apply wf.queued w t made
    exact List.count_pos_iff.mp (by rw [show (p.view.queues w).toList.count t = 1 from once]; exact Nat.one_pos)

/-- The invariants of the queues and of the counts lose no wake-up. -/
theorem wakeful (wf : p.view.Wf) (sized : Sized p.view) {res : LockId → Int} (positive : ∀ s, 0 ≤ res s)
    (balanced : Balanced res p trace) : Wakeful p where
  asleep := asleep_iff wf
  room _ _ cont runs made := block_sleeps wf sized runs cont made
  unlock _ _ _ _ made waiters := mutexUnlock_wakes wf made waiters
  up _ s _ _ made waiters := semaphoreUp_wakes wf balanced (positive s) made waiters
  signal _ _ _ made waiters := condSignal_wakes wf made waiters
  wait _ _ m runs made := condWait_sleeps wf sized runs m made
  waits t c m asleep waiting := by
    obtain ⟨w, names, made, member⟩ := wf.asleep t asleep
    rw [show p.view.conts t = .inWait c m from waiting] at names
    obtain rfl := Option.some.inj names
    exact member

/-- A semaphore starts with a count that is not negative. -/
def CountsUp : Action → Prop
  | .semaphoreCreate resCount => 0 ≤ resCount
  | _ => True

instance : (action : Action) → Decidable (CountsUp action)
  | .semaphoreCreate resCount => inferInstanceAs (Decidable (0 ≤ resCount))
  | .schedule _ | .yield | .threadCreate | .mutexCreate _ | .mutexLock _ | .mutexUnlock _ | .semaphoreUp _ | .semaphoreDown _
  | .condvarCreate | .condvarSignal _ | .condvarWait _ _ | .enableDeadlockDetect _ | .waittid _ | .exit _ =>
      inferInstanceAs (Decidable True)

/-- The labels that such creations cause. -/
def UpLabel : Label → Prop
  | .createSemaphore _ count => 0 ≤ count
  | _ => True

/-- The counts keep their law with a record that has no negative entry. -/
def Settled (p : Proc) (trace : List Event) : Prop :=
  Sized p.view ∧ ∃ res : LockId → Int, (∀ s, 0 ≤ res s) ∧ Balanced res p trace

theorem Settled.effect {label : Label} (wf : p.view.Wf) (settled : Settled p trace) (counts : UpLabel label)
    (effect : Micro p label events q) : Settled q (trace ++ events) := by
  obtain ⟨sized, res, positive, balanced⟩ := settled
  refine ⟨effect.sized (Or.inr wf) sized, ?_⟩
  cases label with
  | createSemaphore id count =>
      refine ⟨Function.update res id count, fun s => ?_, ?_⟩
      · by_cases own : s = id
        · subst own
          rw [Function.update_self]
          exact counts
        · simpa [own] using positive s
      · apply Balanced.effect (Or.inr wf) _ _ effect
        · apply balanced.agree
          intro s known
          cases effect with
          | createSemaphore _ fresh =>
              have other : s ≠ id := by
                rintro rfl
                omega
              exact Function.update_of_ne other ..
        · exact Function.update_self ..
  | _ =>
      refine ⟨res, positive, ?_⟩
      apply balanced.effect (Or.inr wf) _ effect
      trivial

/-- In a living process no wake-up is lost, whatever its threads do with its primitives. -/
theorem no_lost_wakeup (reached : Reaches step (fun _ _ action => CountsUp action) Initial p trace) :
    p.Dead ∨ Wakeful p := by
  have settled := run_invariant_alive (fun _ _ label => UpLabel label) Settled
    (fun p initial => ⟨?_, fun _ => 0, fun _ => Int.le_refl 0, initial.balanced _⟩) ?_ ?_ reached
  · rcases settled with dead | ⟨wf, sized, res, positive, balanced⟩
    · exact Or.inl dead
    · exact Or.inr (wakeful wf sized positive balanced)
  · intro w made
    cases w with
    | mutex id => simp [Proc.view, Proc.Created, initial.mutexes] at made
    | semaphore id => simp [Proc.view, Proc.Created, initial.semaphores] at made
    | condvar id => simp [Proc.view, Proc.Created, initial.condvars] at made
  · intro p trace action q sofar label counts caused
    cases label with
    | createSemaphore id count =>
        obtain ⟨rfl, _⟩ := caused
        exact counts
    | _ => trivial
  · exact fun p trace label events q wf settled counts effect => Or.inr (settled.effect wf counts effect)

/-- A waiter of a condition variable, a waiter of a mutex and a waiter of a semaphore at the same time. -/
theorem no_lost_wakeup_run : ∃ p trace, Reaches step (fun _ _ action => CountsUp action) Initial p trace ∧
    (p.waitQueue (.condvar 0)).toList = [1] ∧ (p.waitQueue (.mutex 0)).toList = [2] ∧
      (p.waitQueue (.semaphore 0)).toList = [3] ∧ (p.Dead ∨ Wakeful p) := by
  obtain ⟨p, trace, reached, facts⟩ := replay_witness step (fun _ _ action => CountsUp action) Initial
    [.schedule 0, .mutexCreate 1, .semaphoreCreate 0, .condvarCreate, .threadCreate, .threadCreate, .threadCreate, .yield,
      .schedule 1, .mutexLock 0, .condvarWait 0 0, .schedule 0, .mutexLock 0, .yield, .schedule 2, .mutexLock 0,
      .schedule 3, .semaphoreDown 0]
    freshProc freshProc_initial
    (fun p _ => decide ((p.waitQueue (.condvar 0)).toList = [1] ∧ (p.waitQueue (.mutex 0)).toList = [2] ∧
      (p.waitQueue (.semaphore 0)).toList = [3])) (by decide +kernel)
  obtain ⟨waits, locks, downs⟩ := of_decide_eq_true facts
  exact ⟨p, trace, reached, waits, locks, downs, no_lost_wakeup reached⟩

end BtbuOs.Sync
