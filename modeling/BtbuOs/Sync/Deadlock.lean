import BtbuOs.Lib.Acyclic
import BtbuOs.Sync.Exclusion
import BtbuOs.Sync.Stuck

namespace BtbuOs.Sync

open Machine Relation

/-- The first thread sleeps in the wait queue of a mutex that the second one is inside of. -/
def Waits (p : Proc) (trace : List Event) (t u : Tid) : Prop :=
  ∃ m : LockId, m.val < p.nextMutexId ∧ p.threads t = .sleeping ∧
    t ∈ (p.waitQueue (.mutex m)).toList ∧ inside u m trace = true

/-- The lock of this mutex by this thread would close a cycle of waiting threads. -/
def Closes (p : Proc) (trace : List Event) (t : Tid) (m : LockId) : Prop :=
  ∃ u, inside u m trace = true ∧ ReflTransGen (Waits p trace) u t

/-- The process enables the detection first and uses blocking mutexes and condition variables only. -/
def Monitored (p : Proc) (trace : List Event) : Action → Prop
  | .mutexCreate blocking => blocking ≠ 0
  | .mutexLock _ => p.deadlockDetectEnable = true
  | .mutexUnlock mutexId => p.deadlockDetectEnable = true ∧ Disciplined p trace (.mutexUnlock mutexId)
  | .condvarWait condId mutexId =>
      p.deadlockDetectEnable = true ∧ Disciplined p trace (.condvarWait condId mutexId)
  | .semaphoreCreate _ | .semaphoreUp _ | .semaphoreDown _ => False
  | .enableDeadlockDetect isEnable => isEnable ≠ 0
  | .threadCreate => p.deadlockDetectEnable = true
  | _ => True

/-- A signalled waiter that finds its mutex taken does not close a cycle by waiting again. -/
def WakesFree (p : Proc) (trace : List Event) (action : Action) : Prop :=
  ∀ t c m, action = .schedule t → p.conts t = .inWait c m → ¬Closes p trace t m

instance (p : Proc) (trace : List Event) (action : Action) : Decidable (Monitored p trace action) := by
  cases action <;> unfold Monitored <;> infer_instance

/-- The signalled waiter finds nobody inside its mutex. -/
def WakesVacant (p : Proc) (trace : List Event) (action : Action) : Prop :=
  ∀ t c m, action = .schedule t → p.conts t = .inWait c m → ∀ u, inside u m trace = false

instance (p : Proc) (trace : List Event) (action : Action) : Decidable (WakesVacant p trace action) :=
  inferInstanceAs (Decidable (∀ _ _ _, _ → _ → _))

instance (p : Proc) (trace : List Event) (t u : Tid) : Decidable (Waits p trace t u) :=
  inferInstanceAs (Decidable (∃ m : LockId, m.val < p.nextMutexId ∧ p.threads t = .sleeping ∧
    t ∈ (p.waitQueue (.mutex m)).toList ∧ inside u m trace = true))

theorem WakesVacant.wakesFree {p : Proc} {trace : List Event} {action : Action}
    (vacant : WakesVacant p trace action) : WakesFree p trace action := by
  rintro t c m scheduled waits ⟨u, present, _⟩
  have absent := vacant t c m scheduled waits u
  simp [present] at absent

/-- The bookkeeping of the detection while only blocking mutexes are in use. -/
structure Booked (p : Proc) (trace : List Event) : Prop where
  blocking : ∀ m : LockId, m.val < p.nextMutexId → (p.mutexPool m).blocking = true
  unspun : ∀ t m, p.threads t = .runnable → p.conts t ≠ .spinning m
  held : ∀ m t, Owner p trace m t → ∀ u, p.mutexAllocation u m = if u = t then 1 else 0
  free : ∀ m : LockId, (p.mutexPool m).locked = false ∨ p.nextMutexId ≤ m.val → ∀ u, p.mutexAllocation u m = 0
  request : ∀ t m, p.threads t = .sleeping → p.conts t = .inLock m → p.mutexRequest t m = 1

/-- The labels of a monitored run. -/
def WatchLabel (p : Proc) (trace : List Event) : Label → Prop
  | .release t m | .handOver t m _ => p.current = some t → inside t m trace = true
  | .createMutex _ blocking => blocking = true
  | .wait t m => p.current = some t → RequestSafe p t m ∨ ¬Closes p trace t m
  | _ => True

theorem semaphoreRelease_mutexAllocation (p : Proc) (t : Tid) (s : LockId) :
    (semaphoreRelease p t s).mutexAllocation = p.mutexAllocation := by
  unfold semaphoreRelease
  split <;> rfl

theorem semaphoreRelease_mutexRequest (p : Proc) (t : Tid) (s : LockId) :
    (semaphoreRelease p t s).mutexRequest = p.mutexRequest := by
  unfold semaphoreRelease
  split <;> rfl

/-- The thread sleeps in `mutex_lock` of this mutex. -/
def LockSleep (p : Proc) (t : Tid) (m : LockId) : Prop := p.threads t = .sleeping ∧ p.conts t = .inLock m

section Sleepers

variable {p : Proc} {t : Tid} {state : ThreadState}

/-- A thread that changes to another state than a sleep in `mutex_lock` adds no such sleeper. -/
theorem lockSleep_update {cont : Cont} (awake : ∀ n, ¬(state = .sleeping ∧ cont = .inLock n)) {u : Tid} {n : LockId}
    (sleeps : Function.update p.threads t state u = .sleeping ∧ Function.update p.conts t cont u = .inLock n) :
    LockSleep p u n := by
  by_cases same : u = t
  · subst same
    exact absurd (by simpa using sleeps) (awake n)
  · simpa [LockSleep, same] using sleeps

theorem lockSleep_thread (awake : state ≠ .sleeping) {u : Tid} {n : LockId}
    (sleeps : Function.update p.threads t state u = .sleeping ∧ p.conts u = .inLock n) : LockSleep p u n := by
  by_cases same : u = t
  · subst same
    exact absurd (by simpa using sleeps.1) awake
  · simpa [LockSleep, same] using sleeps

end Sleepers

/-- A thread starts to sleep in `mutex_lock` only by a wait. -/
theorem Micro.lockSleep {p q : Proc} {events : List Event} {label : Label} (effect : Micro p label events q)
    {u : Tid} {n : LockId} (sleeps : LockSleep q u n) : LockSleep p u n ∨ label = .wait u n := by
  cases effect with
  | report | detect | clearMutexRequest | clearSemRequest | createMutex | createSemaphore | createCondvar | take
  | release | lower => exact Or.inl sleeps
  | preempt | dispatch | poll | leaveSpin | resumeLock | lowerBlock | resumeDown | waitCond | start =>
      exact Or.inl (lockSleep_update (by simp) sleeps)
  | wait runs known busy blocks pushed =>
      rename_i t m ring
      by_cases same : u = t
      · subst same
        have saved : Cont.inLock m = .inLock n := by simpa [Proc.sched, Proc.setCont] using sleeps.2
        injection saved with equal
        exact Or.inr (by rw [equal])
      · have old : LockSleep p u n := by
          simpa [LockSleep, Proc.sched, Proc.setCont, Proc.setThread, Proc.setWaitQueue, Proc.setMutex, same]
            using sleeps
        exact Or.inl old
  | handOver | signal | collect | exit => exact Or.inl (lockSleep_thread (by simp) sleeps)
  | «raise» runs known free =>
      rename_i t s
      obtain ⟨threads, conts, _⟩ := semaphoreRelease_frame p t s
      exact Or.inl (by simpa only [LockSleep, threads, conts] using sleeps)
  | raiseWake runs known owed popped =>
      rename_i t s next ring
      obtain ⟨threads, conts, _⟩ := semaphoreRelease_frame p t s
      have after : Function.update (semaphoreRelease p t s).threads next .runnable u = .sleeping ∧
        (semaphoreRelease p t s).conts u = .inLock n := sleeps
      rw [threads, conts] at after
      exact Or.inl (lockSleep_thread (by simp) after)
  | exitProcess =>
      have gone : ThreadState.unused = .sleeping := sleeps.1
      contradiction

/-- A thread that comes inside a mutex runs. -/
theorem Micro.entered {p q : Proc} {trace events : List Event} {label : Label} (effect : Micro p label events q)
    (wf : p.view.Wf) {u : Tid} {n : LockId} (present : inside u n (trace ++ events) = true) :
    inside u n trace = true ∨ q.threads u = .running := by
  cases effect with
  | take runs known free =>
      rename_i t m
      by_cases same : u = t
      · subst same
        exact Or.inr ((wf.running u).mp runs)
      · exact Or.inl (by simpa [inside_append, holdEvent, Ne.symm same] using present)
  | leaveSpin idle ready polls free =>
      rename_i t m
      by_cases same : u = t
      · exact Or.inr (by simp [Proc.enter, Proc.setCont, Proc.setThread, same])
      · exact Or.inl (by simpa [inside_append, holdEvent, Ne.symm same] using present)
  | resumeLock idle ready handed =>
      rename_i t m
      by_cases same : u = t
      · exact Or.inr (by simp [Proc.enter, Proc.setCont, Proc.setThread, same])
      · exact Or.inl (by simpa [inside_append, holdEvent, Ne.symm same] using present)
  | release | handOver | start | exit =>
      rw [inside_append, List.foldl_cons, List.foldl_nil, holdEvent, Bool.and_eq_true] at present
      exact Or.inl present.1
  | exitProcess =>
      rw [inside_exits] at present
      contradiction
  | _ => exact Or.inl (by simpa [inside_append, holdEvent] using present)

/-- A mutex keeps its kind after its creation. -/
theorem Micro.kind {p q : Proc} {events : List Event} {label : Label} (effect : Micro p label events q)
    {n : LockId} (known : n.val < q.nextMutexId) :
    (∃ blocking, label = .createMutex n blocking ∧ (q.mutexPool n).blocking = blocking) ∨
      n.val < p.nextMutexId ∧ (q.mutexPool n).blocking = (p.mutexPool n).blocking := by
  have kept (m : LockId) (locked : Bool) :
      ((p.setLocked m locked).mutexPool n).blocking = (p.mutexPool n).blocking := by
    by_cases same : n = m <;> simp [Proc.setLocked, Proc.setMutex, same]
  have queued (m : LockId) (ring : Queue Tid) :
      ((p.setWaitQueue (.mutex m) ring).mutexPool n).blocking = (p.mutexPool n).blocking := by
    by_cases same : n = m <;> simp [Proc.setWaitQueue, Proc.setMutex, same]
  cases effect with
  | createMutex blocking fresh ring valid sized =>
      rename_i id
      by_cases same : n = id
      · subst same
        exact Or.inl ⟨blocking, rfl, by simp [Proc.setMutex]⟩
      · rcases (lt_succ_iff fresh).mp known with old | equal
        · exact Or.inr ⟨old, by simp [Proc.setMutex, same]⟩
        · exact absurd equal same
  | take | release => exact Or.inr ⟨known, kept _ _⟩
  | wait | handOver => exact Or.inr ⟨known, queued _ _⟩
  | «raise» runs made free =>
      rename_i t s
      obtain ⟨_, _, pool, next⟩ := semaphoreRelease_frame p t s
      exact Or.inr ⟨next ▸ known, by rw [pool]⟩
  | raiseWake runs made owed popped =>
      rename_i t s next ring
      obtain ⟨_, _, pool, count⟩ := semaphoreRelease_frame p t s
      refine Or.inr ⟨count ▸ known, ?_⟩
      show ((semaphoreRelease p t s).mutexPool n).blocking = _
      rw [pool]
  | _ => exact Or.inr ⟨known, rfl⟩

/-- Without spin mutexes no thread polls. -/
theorem Booked.unspun_effect {p q : Proc} {trace events : List Event} {label : Label} (booked : Booked p trace)
    (wf : p.view.Wf) (effect : Micro p label events q) (t : Tid) (m : LockId) (ready : q.threads t = .runnable) :
    q.conts t ≠ .spinning m := by
  have update {s : Tid} {state : ThreadState} {cont : Cont} (calm : ∀ n, cont ≠ .spinning n)
      (after : Function.update p.threads s state t = .runnable) : Function.update p.conts s cont t ≠ .spinning m := by
    by_cases same : t = s
    · subst same
      simpa using calm m
    · rw [Function.update_of_ne same] at after ⊢
      exact booked.unspun t m after
  have woken {s : Tid} {w : WaitId} {ring : Queue Tid} (made : p.Created w)
      (popped : popQueue (p.waitQueue w) = (some s, ring))
      (after : Function.update p.threads s .runnable t = .runnable) : p.conts t ≠ .spinning m := by
    by_cases same : t = s
    · subst same
      obtain ⟨_, content, _⟩ := Queue.popQueue_some (wf.rings w made) popped
      have waits := (wf.queued w t made (by rw [content]; exact List.mem_cons_self)).2
      intro polls
      rw [show p.view.conts t = .spinning m from polls] at waits
      contradiction
    · rw [Function.update_of_ne same] at after
      exact booked.unspun t m after
  cases effect with
  | report | detect | clearMutexRequest | clearSemRequest | createMutex | createSemaphore | createCondvar | take
  | release | lower => exact booked.unspun t m ready
  | preempt | dispatch | leaveSpin | resumeLock | wait | lowerBlock | resumeDown | waitCond | start =>
      exact update (by simp) ready
  | poll runs known busy spins =>
      have blocks := booked.blocking _ known
      simp [spins] at blocks
  | handOver runs known blocks popped =>
      rename_i s n next ring
      have made : p.Created (.mutex n) := ⟨known, blocks⟩
      exact woken made popped ready
  | «raise» runs known free =>
      rename_i s n
      obtain ⟨threads, conts, _⟩ := semaphoreRelease_frame p s n
      rw [threads] at ready
      rw [conts]
      exact booked.unspun t m ready
  | raiseWake runs known owed popped =>
      rename_i s n next ring
      obtain ⟨threads, conts, _⟩ := semaphoreRelease_frame p s n
      have made : p.Created (.semaphore n) := known
      have after : Function.update (semaphoreRelease p s n).threads next .runnable t = .runnable := ready
      rw [threads] at after
      show (semaphoreRelease p s n).conts t ≠ .spinning m
      rw [conts]
      exact woken made popped after
  | signal runs known popped =>
      rename_i c next s ring
      have made : p.Created (.condvar c) := known
      exact woken made popped ready
  | collect ended =>
      rename_i s
      by_cases same : t = s
      · simp [Proc.setThread, same] at ready
      · exact booked.unspun t m (by simpa [Proc.setThread, same] using ready)
  | exit code runs worker =>
      rename_i s
      by_cases same : t = s
      · simp [Proc.setThread, same] at ready
      · exact booked.unspun t m (by simpa [Proc.setThread, same] using ready)
  | exitProcess =>
      have gone : ThreadState.unused = .runnable := ready
      contradiction

/-- An effect that leaves the allocations alone keeps what they say. -/
theorem Booked.quiet {p q : Proc} {trace events : List Event} {label : Label} (booked : Booked p trace)
    (wf : p.view.Wf) (effect : Micro p label events q) (same : q.mutexAllocation = p.mutexAllocation)
    (gains : ∀ m t, ¬Gains label m t) (keeps : ∀ m t, label ≠ .release t m) :
    (∀ m t, Owner q (trace ++ events) m t → ∀ u, q.mutexAllocation u m = if u = t then 1 else 0) ∧
      ∀ m : LockId, (q.mutexPool m).locked = false ∨ q.nextMutexId ≤ m.val → ∀ u, q.mutexAllocation u m = 0 := by
  rw [same]
  constructor
  · intro m t owner
    rcases effect.owner (Or.inr wf) owner with gained | ⟨old, _⟩
    · exact absurd gained (gains m t)
    · exact booked.held m t old
  · intro m unused
    apply booked.free m
    by_cases known : m.val < p.nextMutexId
    · cases taken : (p.mutexPool m).locked with
      | false => exact Or.inl rfl
      | true =>
          rcases effect.locked known taken with ⟨t, released⟩ | still
          · exact absurd released (keeps m t)
          · rcases unused with free | unknown
            · simp [still] at free
            · exact Or.inr (Nat.le_trans effect.created unknown)
    · exact Or.inr (Nat.le_of_not_lt known)

/-- Every fair effect keeps the allocations true to the owners. -/
theorem Booked.allocation_effect {p q : Proc} {trace events : List Event} {label : Label} (booked : Booked p trace)
    (owned : Owned p trace) (wf : p.view.Wf) (fair : FairLabel p trace label) (effect : Micro p label events q) :
    (∀ m t, Owner q (trace ++ events) m t → ∀ u, q.mutexAllocation u m = if u = t then 1 else 0) ∧
      ∀ m : LockId, (q.mutexPool m).locked = false ∨ q.nextMutexId ≤ m.val → ∀ u, q.mutexAllocation u m = 0 := by
  have owner {n : LockId} {u : Tid} (present : Owner q (trace ++ events) n u) := effect.owner (Or.inr wf) present
  have whole := effect
  cases effect with
  | leaveSpin idle ready polls free => exact absurd polls (booked.unspun _ _ ready)
  | take runs known free =>
      rename_i t m
      constructor
      · intro n u present x
        show p.mutexAllocation.set t m 1 x n = _
        rcases owner present with gained | ⟨old, _⟩
        · obtain ⟨rfl, rfl⟩ : t = u ∧ m = n := by simpa [Gains] using gained
          by_cases same : x = t
          · simp [same]
          · rw [Matrix.set_of_ne _ _ (fun both => same both.1), booked.free m (Or.inl free) x, if_neg same]
        · have other : n ≠ m := by
            rintro rfl
            have taken := owned.locked n u old
            simp [free] at taken
          rw [Matrix.set_of_ne _ _ (fun both => other both.2)]
          exact booked.held n u old x
      · intro n unused x
        show p.mutexAllocation.set t m 1 x n = 0
        have other : n ≠ m := by
          rintro rfl
          rcases unused with free | unknown
          · simp [Proc.setLocked, Proc.setMutex] at free
          · have bound : p.nextMutexId ≤ n.val := unknown
            omega
        rw [Matrix.set_of_ne _ _ (fun both => other both.2)]
        exact booked.free n (by simpa [Proc.setLocked, Proc.setMutex, other] using unused) x
  | resumeLock idle ready handed =>
      rename_i t m
      have same : p.mutexAllocation.set t m 1 = p.mutexAllocation := by
        funext x n
        by_cases target : x = t ∧ n = m
        · obtain ⟨rfl, rfl⟩ := target
          rw [Matrix.set_self, booked.held n x (Or.inr ⟨ready, handed⟩) x, if_pos rfl]
        · exact Matrix.set_of_ne _ _ target
      exact booked.quiet wf whole same (by simp [Gains]) (by simp)
  | release runs known unclaimed =>
      rename_i t m
      constructor
      · intro n u present x
        show p.mutexAllocation.set t m 0 x n = _
        rcases owner present with gained | ⟨old, kept⟩
        · simp [Gains] at gained
        · have other : n ≠ m := by
            rintro rfl
            rcases fair with held | free
            · exact kept (Or.inl (by rw [owned.unique n u t old held]))
            · have taken := owned.locked n u old
              simp [free] at taken
          rw [Matrix.set_of_ne _ _ (fun both => other both.2)]
          exact booked.held n u old x
      · intro n unused x
        show p.mutexAllocation.set t m 0 x n = 0
        by_cases target : n = m
        · subst target
          by_cases same : x = t
          · simp [same]
          · rw [Matrix.set_of_ne _ _ (fun both => same both.1)]
            rcases fair with held | free
            · rw [booked.held n t held x, if_neg same]
            · exact booked.free n (Or.inl free) x
        · rw [Matrix.set_of_ne _ _ (fun both => target both.2)]
          exact booked.free n (by simpa [Proc.setLocked, Proc.setMutex, target] using unused) x
  | handOver runs known blocks popped =>
      rename_i t m next ring
      obtain ⟨holder, held, part⟩ : ∃ holder, Owner p trace m holder ∧ (holder = t ∨ holder = next) := by
        rcases fair with giver | waits
        · exact ⟨t, giver, Or.inl rfl⟩
        · exact ⟨next, waits, Or.inr rfl⟩
      have write (x : Tid) (n : LockId) : ((p.mutexAllocation.set t m 0).set next m 1) x n =
          if n = m then (if x = next then 1 else 0) else p.mutexAllocation x n := by
        by_cases target : n = m
        · subst target
          by_cases woken : x = next
          · simp [woken]
          · rw [Matrix.set_of_ne _ _ (fun both => woken both.1), if_pos rfl, if_neg woken]
            by_cases same : x = t
            · simp [same]
            · have other : x ≠ holder := by
                rcases part with rfl | rfl
                · exact same
                · exact woken
              rw [Matrix.set_of_ne _ _ (fun both => same both.1), booked.held n holder held x, if_neg other]
        · rw [Matrix.set_of_ne _ _ (fun both => target both.2), Matrix.set_of_ne _ _ (fun both => target both.2),
            if_neg target]
      constructor
      · intro n u present x
        show ((p.mutexAllocation.set t m 0).set next m 1) x n = _
        rw [write]
        rcases owner present with gained | ⟨old, kept⟩
        · obtain ⟨rfl, rfl⟩ : m = n ∧ next = u := by simpa [Gains] using gained
          rw [if_pos rfl]
        · by_cases target : n = m
          · subst target
            have same : u = next := by
              rcases (owned.gained fair whole (Or.inr (Or.inr ⟨t, rfl⟩))).1 u old with same | lost
              · exact same
              · exact absurd lost kept
            rw [if_pos rfl, same]
          · rw [if_neg target]
            exact booked.held n u old x
      · intro n unused x
        show ((p.mutexAllocation.set t m 0).set next m 1) x n = 0
        have lock : ((p.setWaitQueue (.mutex m) ring).mutexPool n).locked = false ∨ p.nextMutexId ≤ n.val := unused
        rw [setWaitQueue_locked] at lock
        have other : n ≠ m := by
          rintro rfl
          rcases lock with free | unknown
          · simp [owned.locked n holder held] at free
          · omega
        rw [write, if_neg other]
        exact booked.free n lock x
  | «raise» runs known free =>
      rename_i t s
      exact booked.quiet wf whole (semaphoreRelease_mutexAllocation p t s) (by simp [Gains]) (by simp)
  | raiseWake runs known owed popped =>
      rename_i t s next ring
      exact booked.quiet wf whole (semaphoreRelease_mutexAllocation p t s) (by simp [Gains]) (by simp)
  | _ => exact booked.quiet wf whole rfl (by simp [Gains]) (by simp)

/-- Every effect of a monitored run keeps the requests of the sleepers. -/
theorem Booked.request_effect {p q : Proc} {trace events : List Event} {label : Label} (booked : Booked p trace)
    (wf : p.view.Wf) (effect : Micro p label events q) {u : Tid} {n : LockId} (sleeps : LockSleep q u n) :
    q.mutexRequest u n = 1 := by
  have old (changed : label ≠ .wait u n) : p.mutexRequest u n = 1 := by
    rcases effect.lockSleep sleeps with before | waits
    · exact booked.request u n before.1 before.2
    · exact absurd waits changed
  have asleep : q.threads u = .sleeping := sleeps.1
  cases effect with
  | clearMutexRequest runs =>
      rename_i t m
      have running : p.threads t = .running := (wf.running t).mp runs
      have other : u ≠ t := by
        rintro rfl
        simp [running] at asleep
      exact (Matrix.set_of_ne _ _ fun both => other both.1).trans (old (by simp))
  | poll runs known busy spins =>
      have blocks := booked.blocking _ known
      simp [spins] at blocks
  | leaveSpin idle ready polls free => exact absurd polls (booked.unspun _ _ ready)
  | wait runs known busy blocks pushed =>
      rename_i t m ring
      show p.mutexRequest.set t m 1 u n = 1
      by_cases same : u = t ∧ n = m
      · obtain ⟨rfl, rfl⟩ := same
        exact Matrix.set_self ..
      · have changed : Label.wait t m ≠ .wait u n := by
          intro equal
          injection equal with thread mutex
          exact same ⟨thread.symm, mutex.symm⟩
        exact (Matrix.set_of_ne _ _ same).trans (old changed)
  | resumeLock idle ready handed =>
      rename_i t m
      have other : u ≠ t := by
        rintro rfl
        simp [Proc.enter, Proc.setCont, Proc.setThread] at asleep
      exact (Matrix.set_of_ne _ _ fun both => other both.1).trans (old (by simp))
  | handOver runs known blocks popped =>
      rename_i t m next ring
      have other : u ≠ next := by
        rintro rfl
        simp [Proc.setThread] at asleep
      exact (Matrix.set_of_ne _ _ fun both => other both.1).trans (old (by simp))
  | «raise» runs known free =>
      rename_i t s
      rw [semaphoreRelease_mutexRequest]
      exact old (by simp)
  | raiseWake runs known owed popped =>
      rename_i t s next ring
      show (semaphoreRelease p t s).mutexRequest u n = 1
      rw [semaphoreRelease_mutexRequest]
      exact old (by simp)
  | _ => exact old (by simp)

/-- Every fair effect that creates no spin mutex keeps the bookkeeping. -/
theorem Booked.effect {p q : Proc} {trace events : List Event} {label : Label} (booked : Booked p trace)
    (owned : Owned p trace) (wf : p.view.Wf) (fair : FairLabel p trace label)
    (blocks : ∀ id blocking, label = .createMutex id blocking → blocking = true) (effect : Micro p label events q) :
    Booked q (trace ++ events) := by
  obtain ⟨held, free⟩ := booked.allocation_effect owned wf fair effect
  refine ⟨fun m known => ?_, booked.unspun_effect wf effect, held, free, fun t m asleep inLock => ?_⟩
  · rcases effect.kind known with ⟨blocking, rfl, kind⟩ | ⟨old, kind⟩
    · rw [kind]
      exact blocks m blocking rfl
    · rw [kind]
      exact booked.blocking m old
  · exact booked.request_effect wf effect ⟨asleep, inLock⟩

/-- An edge of the wait-for graph leads from a sleeper to the thread inside its mutex. -/
def Edge (p : Proc) (trace : List Event) (t u : Tid) : Prop := ∃ m, LockSleep p t m ∧ inside u m trace = true

/-- The wait queues and the saved contexts give the same graph. -/
theorem waits_eq {p : Proc} {trace : List Event} (wf : p.view.Wf) (booked : Booked p trace) :
    Waits p trace = Edge p trace := by
  funext t u
  apply propext
  constructor
  · rintro ⟨m, known, asleep, member, present⟩
    have made : p.view.created (.mutex m) := ⟨known, booked.blocking m known⟩
    have waits : (p.conts t).waitId = some (.mutex m) := (wf.queued (.mutex m) t made member).2
    refine ⟨m, ⟨asleep, ?_⟩, present⟩
    cases saved : p.conts t <;> simp_all [Cont.waitId]
  · rintro ⟨m, ⟨asleep, inLock⟩, present⟩
    obtain ⟨w, waits, made, member⟩ := wf.asleep t asleep
    rw [show p.view.conts t = .inLock m from inLock] at waits
    obtain rfl := Option.some.inj waits
    exact ⟨m, made.1, asleep, member, present⟩

/-- The detection sees every lock that would close a cycle. -/
theorem closes_detected {p : Proc} {trace : List Event} (wf : p.view.Wf) (owned : Owned p trace)
    (booked : Booked p trace) {t : Tid} {m : LockId} (runs : p.current = some t) (closes : Closes p trace t m) :
    ¬RequestSafe p t m := by
  rw [Closes, waits_eq wf booked] at closes
  obtain ⟨holder, present, path⟩ := closes
  have running : p.threads t = .running := (wf.running t).mp runs
  have trapped : Trapped { p with mutexRequest := p.mutexRequest.set t m 1 }
      (fun x => ReflTransGen (Edge p trace) x t)
      (fun n => ∃ y, ReflTransGen (Edge p trace) y t ∧ inside y n trace = true) := by
    constructor
    · intro x leads
      rcases leads.cases_head with rfl | ⟨y, ⟨n, ⟨asleep, _⟩, _⟩, _⟩
      · simp [running]
      · simp [asleep]
    · intro x leads
      rcases leads.cases_head with rfl | ⟨y, ⟨n, ⟨asleep, inLock⟩, held⟩, rest⟩
      · exact ⟨m, ⟨holder, path, present⟩, by simp⟩
      · have other : ¬(x = t ∧ n = m) := by
          rintro ⟨rfl, _⟩
          simp [running] at asleep
        refine ⟨n, ⟨y, rest, held⟩, ?_⟩
        show 0 < p.mutexRequest.set t m 1 x n
        rw [Matrix.set_of_ne _ _ other, booked.request x n asleep inLock]
        exact Int.one_pos
    · rintro n ⟨y, _, held⟩
      exact owned.locked n y (Or.inl held)
    · rintro n u ⟨y, leads, held⟩ outside
      have other : u ≠ y := by
        rintro rfl
        exact outside leads
      have nothing := booked.held n y (Or.inl held) u
      rw [if_neg other] at nothing
      exact Int.le_of_eq nothing
  have detected := trapped.detected .refl
  simp [RequestSafe, detected]

/-- Every effect of a monitored run keeps the wait-for graph acyclic. -/
theorem acyclic_effect {p q : Proc} {trace events : List Event} {label : Label} (wf : p.view.Wf)
    (owned : Owned p trace) (booked : Booked p trace) (watched : WatchLabel p trace label)
    (effect : Micro p label events q) (acyclic : Acyclic (Edge p trace)) : Acyclic (Edge q (trace ++ events)) := by
  by_cases waits : ∃ t m, label = .wait t m
  · obtain ⟨t, m, rfl⟩ := waits
    have lockSleep {x : Tid} {n : LockId} (sleeps : LockSleep q x n) := effect.lockSleep sleeps
    cases effect with
    | wait runs known busy blocks pushed =>
        refine acyclic.grow t (fun y => inside y m trace = true) ?_ ?_
        · rintro x y ⟨n, sleeps, present⟩
          rw [List.append_nil] at present
          rcases lockSleep sleeps with old | new
          · exact Or.inl ⟨n, old, present⟩
          · injection new with thread mutex
            subst thread mutex
            exact Or.inr ⟨rfl, present⟩
        · intro y present path
          have closes : Closes p trace t m := ⟨y, present, by rwa [waits_eq wf booked]⟩
          rcases watched runs with safe | away
          · exact closes_detected wf owned booked runs closes safe
          · exact away closes
  · refine acyclic.shrink ?_
    rintro x y ⟨n, sleeps, present⟩ ⟨z, k, onward, _⟩
    have before : LockSleep p x n := by
      rcases effect.lockSleep sleeps with old | new
      · exact old
      · exact absurd ⟨x, n, new⟩ waits
    rcases effect.entered wf present with old | running
    · exact ⟨n, before, old⟩
    · have asleep : q.threads y = .sleeping := onward.1
      simp [running] at asleep

/-- The invariant of a monitored run. -/
structure Watched (p : Proc) (trace : List Event) : Prop where
  owned : Owned p trace
  booked : Booked p trace
  acyclic : Acyclic (Edge p trace)

theorem Watched.effect {p q : Proc} {trace events : List Event} {label : Label} (wf : p.view.Wf)
    (invariant : Watched p trace) (watched : WatchLabel p trace label) (effect : Micro p label events q) :
    Watched q (trace ++ events) := by
  have safe : SafeLabel p trace label := by
    cases effect with
    | release | handOver => exact watched
    | leaveSpin idle ready polls free => exact fun _ => absurd polls (invariant.booked.unspun _ _ ready)
    | _ => trivial
  have blocks (id : LockId) (blocking : Bool) (made : label = .createMutex id blocking) : blocking = true := by
    subst made
    exact watched
  exact ⟨invariant.owned.effect (Or.inr wf) (safe.fair effect) effect,
    invariant.booked.effect invariant.owned wf (safe.fair effect) blocks effect,
    acyclic_effect wf invariant.owned invariant.booked watched effect invariant.acyclic⟩

theorem Initial.watched {p : Proc} (initial : Initial p) : Watched p [] := by
  have owned := initial.owned
  have awake (t : Tid) : p.threads t ≠ .sleeping := by
    by_cases main : t = 0
    · simp [main, initial.main]
    · simp [initial.others t main]
  refine ⟨owned, ⟨?_, ?_, ?_, ?_, ?_⟩, ?_⟩
  · intro m known
    simp [initial.mutexes] at known
  · intro t m ready
    by_cases main : t = 0
    · simp [main, initial.conts]
    · simp [initial.others t main] at ready
  · intro m t owner
    have known := owned.known m t owner
    simp [initial.mutexes] at known
  · intro m _ u
    rw [initial.mutexAllocation]
  · exact fun t m asleep => absurd asleep (awake t)
  · intro t cycle
    obtain ⟨u, ⟨m, sleeps, _⟩, _⟩ := TransGen.head'_iff.mp cycle
    exact awake t sleeps.1

/-- A scheduled thread was not asleep, so the graph before the switch has every edge. -/
theorem closes_enter {p : Proc} {trace : List Event} {t : Tid} {m : LockId}
    (closes : Closes (p.enter t) trace t m) : Closes p trace t m := by
  obtain ⟨u, present, path⟩ := closes
  refine ⟨u, present, ReflTransGen.mono ?_ _ _ path⟩
  rintro x y ⟨n, known, asleep, member, held⟩
  have other : x ≠ t := by
    rintro rfl
    simp [Proc.enter, Proc.setCont, Proc.setThread] at asleep
  refine ⟨n, known, ?_, member, held⟩
  simpa [Proc.enter, Proc.setCont, Proc.setThread, other] using asleep

theorem watchLabel_of_caused {p q : Proc} {trace sofar : List Event} {action : Action} {label : Label}
    (monitored : Monitored p trace action) (free : WakesFree p trace action)
    (caused : Caused p trace action q sofar label) : WatchLabel q sofar label := by
  cases label with
  | release t m | handOver t m next =>
      obtain ⟨rfl, rfl, unlocks⟩ := caused
      intro runs
      cases action with
      | mutexUnlock mutexId => exact monitored.2 t m runs unlocks
      | condvarWait condId mutexId => exact monitored.2 t m runs unlocks
      | _ => simp [Action.unlocks] at unlocks
  | createMutex id blocking =>
      obtain ⟨flag, rfl, rfl⟩ := caused
      exact decide_eq_true monitored
  | wait t m =>
      obtain ⟨rfl, acquires⟩ := caused
      intro runs
      rcases acquires with ⟨locks, safe⟩ | ⟨rfl, ⟨c, waits⟩, rfl⟩
      · cases action with
        | mutexLock mutexId => exact Or.inl (safe monitored)
        | _ => simp [Action.locks] at locks
      · exact Or.inr fun closes => free t c m rfl waits (closes_enter closes)
  | _ => trivial

/-- In runs where no woken waiter closes a cycle, sleepers never wait in a circle, and the detector refuses each
lock that would make them do so. -/
theorem mutex_deadlock_refused {p : Proc} {trace : List Event}
    (reached : Reaches step (fun p trace action => Monitored p trace action ∧ WakesFree p trace action)
      Initial p trace) :
    Acyclic (Waits p trace) ∧
      ∀ t mutexId m, p.current = some t → poolIndex p.nextMutexId mutexId = some m →
        Monitored p trace (.mutexLock mutexId) → Closes p trace t m →
          step p (.mutexLock mutexId) =
            some ({ p with mutexRequest := p.mutexRequest.set t m 0 }, [.returned t deadlockCode]) := by
  have invariant := run_invariant_alive WatchLabel Watched (fun p initial => initial.watched)
    (fun p trace action q sofar label meets caused => watchLabel_of_caused meets.1 meets.2 caused)
    (fun p trace label events q wf before watched effect => Or.inr (before.effect wf watched effect)) reached
  rcases invariant with ⟨idle, unused⟩ | ⟨wf, watched⟩
  · constructor
    · intro t cycle
      obtain ⟨u, ⟨m, _, asleep, _⟩, _⟩ := TransGen.head'_iff.mp cycle
      simp [unused] at asleep
    · intro t mutexId m runs
      simp [idle] at runs
  · constructor
    · rw [waits_eq wf watched.booked]
      exact watched.acyclic
    · intro t mutexId m runs found enabled closes
      have detected := closes_detected wf watched.owned watched.booked runs closes
      have enable : p.deadlockDetectEnable = true := enabled
      rw [RequestSafe, Bool.not_eq_false] at detected
      have called : step p (.mutexLock mutexId) = sysMutexLock p t mutexId := by
        simp only [step, runs, sysCall]
      rw [called]
      simp only [sysMutexLock, found]
      rw [if_pos enable, if_pos detected]

/-- Three threads contend for two mutexes and a signalled waiter takes its mutex back. -/
theorem mutex_deadlock_refused_run : ∃ p trace,
    Reaches step (fun p trace action => Monitored p trace action ∧ WakesFree p trace action) Initial p trace ∧
      inside 1 1 trace = true ∧ Acyclic (Waits p trace) := by
  obtain ⟨p, trace, reached, present⟩ := replay_witness step
    (fun p trace action => Monitored p trace action ∧ WakesVacant p trace action) Initial
    [.schedule 0, .enableDeadlockDetect 1, .mutexCreate 1, .mutexCreate 1, .condvarCreate, .threadCreate, .threadCreate,
      .yield, .schedule 1, .mutexLock 0, .mutexLock 1, .condvarWait 0 1, .schedule 2, .mutexLock 0, .schedule 0,
      .condvarSignal 0, .yield, .schedule 1]
    freshProc freshProc_initial (fun _ trace => inside 1 1 trace) (by decide +kernel)
  have weakened : Reaches step (fun p trace action => Monitored p trace action ∧ WakesFree p trace action)
      Initial p trace := reached.weaken fun p trace action meets => ⟨meets.1, meets.2.wakesFree⟩
  exact ⟨p, trace, weakened, present, (mutex_deadlock_refused weakened).1⟩

/-- A woken waiter that would close a cycle does so, because nothing checks its lock. -/
theorem woken_waiter_closes {p after : Proc} {trace events : List Event} {t : Tid} {c m : LockId} (wf : p.view.Wf)
    (watched : Watched p trace) (idle : p.current = none) (waits : p.conts t = .inWait c m)
    (closes : Closes p trace t m) (stepped : step p (.schedule t) = some (after, events)) :
    ¬Acyclic (Waits after (trace ++ events)) := by
  simp only [step, idle] at stepped
  split at stepped
  · rename_i ready
    obtain ⟨holder, present, path⟩ := closes
    have names := wf.named t (Or.inr ready)
    rw [show p.view.conts t = .inWait c m from waits] at names
    have known : m.val < p.nextMutexId := names.2
    have taken : (p.mutexPool m).locked = true := watched.owned.locked m holder (Or.inl present)
    have blocks : (p.mutexPool m).blocking = true := watched.booked.blocking m known
    have made : p.view.created (.mutex m) := ⟨known, blocks⟩
    simp only [resume, show (p.setThread t .running).conts t = .inWait c m from waits] at stepped
    have resumed : complete t 0 (mutexLock (p.enter t) t m) = some (after, events) := stepped
    have lock : ((p.enter t).mutexPool m).locked = true := taken
    have kind : ((p.enter t).mutexPool m).blocking = true := blocks
    simp only [mutexLock, lock, kind, Bool.true_eq_false, if_false, Proc.block] at resumed
    cases pushed : pushQueue ((p.enter t).waitQueue (.mutex m)) t with
    | error message => simp [pushed, complete] at resumed
    | ok ring =>
        simp only [pushed, complete, Option.some.injEq, Prod.mk.injEq] at resumed
        obtain ⟨rfl, rfl⟩ := resumed
        have content : ring.toList = (p.waitQueue (.mutex m)).toList ++ [t] :=
          (Queue.pushQueue_ok (wf.rings (.mutex m) made) pushed).2.1
        rw [if_neg (by simp [Proc.sched]), List.append_nil]
        intro acyclic
        refine acyclic t (TransGen.head' ⟨m, known, ?_, ?_, present⟩ (ReflTransGen.mono ?_ _ _ path))
        · simp [Proc.sched, Proc.setCont, Proc.setThread]
        · show t ∈ (((p.enter t).setWaitQueue (.mutex m) ring).waitQueue (.mutex m)).toList
          simp [waitQueue_setWaitQueue, content]
        · rintro x y ⟨n, created, asleep, member, held⟩
          have other : x ≠ t := by
            rintro rfl
            simp [ready] at asleep
          refine ⟨n, created, ?_, ?_, held⟩
          · simpa [Proc.sched, Proc.setCont, Proc.setThread, Proc.setWaitQueue, Proc.setMutex, Proc.enter, other]
              using asleep
          · show x ∈ (((p.enter t).setWaitQueue (.mutex m) ring).waitQueue (.mutex n)).toList
            rw [waitQueue_setWaitQueue]
            by_cases same : n = m
            · subst same
              simp [content, member]
            · rw [Function.update_of_ne (by simpa using same)]
              exact member
  · contradiction

/-- The lock behind a condition wait closes a cycle of two sleeping threads without any detection. -/
theorem woken_waiter_deadlocks : ¬∀ p trace, Reaches step Monitored Initial p trace → Acyclic (Waits p trace) := by
  intro claim
  obtain ⟨p, trace, reached, circle⟩ := replay_witness step Monitored Initial
    [.schedule 0, .enableDeadlockDetect 1, .mutexCreate 1, .mutexCreate 1, .condvarCreate, .threadCreate, .threadCreate,
      .yield, .schedule 1, .mutexLock 0, .mutexLock 1, .condvarWait 0 1, .schedule 2, .mutexLock 1, .mutexLock 0,
      .schedule 0, .condvarSignal 0, .yield, .schedule 1]
    freshProc freshProc_initial (fun p trace => decide (Waits p trace 1 2 ∧ Waits p trace 2 1)) (by decide +kernel)
  obtain ⟨first, second⟩ := of_decide_eq_true circle
  exact claim p trace reached 1 (.tail (.single first) second)

end BtbuOs.Sync
