import BtbuOs.Sync.Micro

namespace BtbuOs.Sync

/-- The mutex that a call of `mutex_unlock` inside this action gets. -/
def Action.unlocks (p : Proc) : Action → Option LockId
  | .mutexUnlock mutexId => poolIndex p.nextMutexId mutexId
  | .condvarWait condId mutexId =>
      if (poolIndex p.nextCondvarId condId).isSome then poolIndex p.nextMutexId mutexId else none
  | _ => none

/-- The mutex that `sys_mutex_lock` gets. -/
def Action.locks (p : Proc) : Action → Option LockId
  | .mutexLock mutexId => poolIndex p.nextMutexId mutexId
  | _ => none

/-- The detection passes when the thread requests the mutex. -/
def RequestSafe (p : Proc) (t : Tid) (m : LockId) : Prop :=
  deadlockDetect { p with mutexRequest := p.mutexRequest.set t m 1 } = false

instance (p : Proc) (t : Tid) (m : LockId) : Decidable (RequestSafe p t m) :=
  inferInstanceAs (Decidable (_ = _))

/-- The calls of `mutex_lock` come from the system call or from a waiter that a signal woke. -/
def Acquires (p : Proc) (action : Action) (q : Proc) (t : Tid) (m : LockId) : Prop :=
  (action.locks p = some m ∧ (p.deadlockDetectEnable = true → RequestSafe q t m)) ∨
  (action = .schedule t ∧ (∃ c, p.conts t = .inWait c m) ∧ q = p.enter t)

/-- An effect is traced back to the action and the state before the step. -/
def Caused (p : Proc) (trace : List Event) (action : Action) (q : Proc) (sofar : List Event) : Label → Prop
  | .release _ m | .handOver _ m _ => q = p ∧ sofar = trace ∧ action.unlocks p = some m
  | .leaveSpin t _ | .resumeDown t _ => q = p ∧ action = .schedule t
  | .poll t m | .wait t m => sofar = trace ∧ Acquires p action q t m
  | .createMutex _ blocking => ∃ flag, action = .mutexCreate flag ∧ blocking = decide (flag ≠ 0)
  | .createSemaphore id count => action = .semaphoreCreate count ∧ id.val = p.nextSemaphoreId
  | .start t => q = p ∧ action = .threadCreate ∧ freeSlot p = some t
  | .exit _ => q = p ∧ ∃ code, action = .exit code
  | _ => True

/-- A path grows by one effect. -/
theorem Path.add {allowed : Proc → List Event → Label → Prop} {p q r : Proc}
    {trace sofar events total : List Event} (earlier : Path allowed p trace q sofar) (label : Label)
    (permit : allowed q sofar label) (effect : Micro q label events r) (joined : total = sofar ++ events) :
    Path allowed p trace r total := by
  subst joined
  exact earlier.tail permit effect

theorem Path.weaken {allowed weaker : Proc → List Event → Label → Prop} {p q : Proc}
    {trace sofar : List Event} (implied : ∀ q sofar label, allowed q sofar label → weaker q sofar label)
    (path : Path allowed p trace q sofar) : Path weaker p trace q sofar := by
  induction path with
  | refl => exact .refl
  | tail earlier permit effect ih => exact ih.tail (implied _ _ _ permit) effect

/-- A write of the same wait queue changes nothing. -/
theorem Proc.setWaitQueue_self (p : Proc) (w : WaitId) : p.setWaitQueue w (p.waitQueue w) = p := by
  cases w with
  | mutex id => exact congrArg (fun pool => { p with mutexPool := pool }) (Function.update_eq_self id p.mutexPool)
  | semaphore id =>
      exact congrArg (fun pool => { p with semaphorePool := pool }) (Function.update_eq_self id p.semaphorePool)
  | condvar id =>
      exact congrArg (fun pool => { p with condvarPool := pool }) (Function.update_eq_self id p.condvarPool)

/-- The identifier check admits the identifiers of created primitives. -/
theorem poolIndex_lt {next : Nat} {id : Int} {m : LockId} (found : poolIndex next id = some m) :
    m.val < next := by
  unfold poolIndex at found
  split at found
  · rename_i inside
    obtain rfl := Option.some.inj found
    show id.toNat < next
    omega
  · contradiction

section Paths

variable {p : Proc} {trace : List Event} {action : Action}

/-- The return value is reported after the effects of the call. -/
theorem complete_path {t : Tid} {value : Int} {result : Except String (Proc × List Event)}
    {after : Proc} {sofar events : List Event}
    (path : ∀ r emitted, result = .ok (r, emitted) → Path (Caused p trace action) p trace r (sofar ++ emitted))
    (stepped : complete t value result = some (after, events)) :
    Path (Caused p trace action) p trace after (sofar ++ events) := by
  cases result with
  | error message => simp [complete] at stepped
  | ok pair =>
      obtain ⟨r, emitted⟩ := pair
      simp only [complete, Option.some.injEq, Prod.mk.injEq] at stepped
      obtain ⟨rfl, rfl⟩ := stepped
      split
      · exact (path _ _ rfl).add (.report t) trivial (.report t value) (by simp)
      · exact path _ _ rfl

/-- The effects of `mutex_lock` after a passed detection. -/
theorem mutexLock_path {q : Proc} {t : Tid} {m : LockId} (runs : q.current = some t)
    (known : m.val < q.nextMutexId) (acquires : Acquires p action q t m)
    (path : Path (Caused p trace action) p trace q trace) {r : Proc} {events : List Event}
    (locked : mutexLock q t m = .ok (r, events)) :
    Path (Caused p trace action) p trace r (trace ++ events) := by
  unfold mutexLock at locked
  split at locked
  · rename_i free
    simp only [Except.ok.injEq, Prod.mk.injEq] at locked
    obtain ⟨rfl, rfl⟩ := locked
    exact path.add (.take t m) trivial (.take runs known free) rfl
  rename_i busy
  simp only [Bool.not_eq_false] at busy
  split at locked
  · rename_i spins
    simp only [Except.ok.injEq, Prod.mk.injEq] at locked
    obtain ⟨rfl, rfl⟩ := locked
    exact path.add (.poll t m) ⟨rfl, acquires⟩ (.poll runs known busy spins) rfl
  rename_i blocks
  simp only [Bool.not_eq_false] at blocks
  cases pushed : pushQueue (q.waitQueue (.mutex m)) t with
  | error message => simp [Proc.block, pushed] at locked
  | ok ring =>
      simp only [Proc.block, pushed, Except.ok.injEq, Prod.mk.injEq] at locked
      obtain ⟨rfl, rfl⟩ := locked
      exact path.add (.wait t m) ⟨rfl, acquires⟩ (.wait runs known busy blocks pushed) rfl

/-- The effects of `mutex_unlock` are the first ones of its action. -/
theorem mutexUnlock_path {t : Tid} {m : LockId} (runs : p.current = some t) (known : m.val < p.nextMutexId)
    (unlocks : action.unlocks p = some m) {r : Proc} {events : List Event}
    (unlocked : mutexUnlock p t m = (r, events)) :
    Path (Caused p trace action) p trace r (trace ++ events) := by
  have source : p = p ∧ trace = trace ∧ action.unlocks p = some m := ⟨rfl, rfl, unlocks⟩
  unfold mutexUnlock at unlocked
  split at unlocked
  · rename_i blocks
    cases popped : popQueue (p.waitQueue (.mutex m)) with
    | mk result ring =>
        cases result with
        | none =>
            simp only [Proc.wake, popped, Prod.mk.injEq] at unlocked
            obtain ⟨rfl, rfl⟩ := unlocked
            obtain rfl := Queue.popQueue_none_eq popped
            rw [Proc.setWaitQueue_self]
            exact Path.refl.add (.release t m) source (.release runs known fun _ => by rw [popped]) rfl
        | some next =>
            simp only [Proc.wake, popped, Prod.mk.injEq] at unlocked
            obtain ⟨rfl, rfl⟩ := unlocked
            exact Path.refl.add (.handOver t m next) source (.handOver runs known blocks popped) rfl
  · rename_i spins
    simp only [Prod.mk.injEq] at unlocked
    obtain ⟨rfl, rfl⟩ := unlocked
    exact Path.refl.add (.release t m) source (.release runs known fun blocks => absurd blocks spins) rfl

/-- An unlock neither switches away nor creates anything. -/
theorem mutexUnlock_frame {t : Tid} {m : LockId} {r : Proc} {events : List Event}
    (unlocked : mutexUnlock p t m = (r, events)) :
    r.current = p.current ∧ r.nextMutexId = p.nextMutexId ∧ r.nextCondvarId = p.nextCondvarId := by
  unfold mutexUnlock Proc.wake at unlocked
  split at unlocked
  · cases popped : popQueue (p.waitQueue (.mutex m)) with
    | mk result ring =>
        cases result with
        | none | some next =>
            simp only [popped, Prod.mk.injEq] at unlocked
            obtain ⟨rfl, _⟩ := unlocked
            exact ⟨rfl, rfl, rfl⟩
  · simp only [Prod.mk.injEq] at unlocked
    obtain ⟨rfl, _⟩ := unlocked
    exact ⟨rfl, rfl, rfl⟩

/-- The effects of `semaphore_up`. -/
theorem semaphoreUp_path {t : Tid} {s : LockId} (runs : p.current = some t) (known : s.val < p.nextSemaphoreId)
    {r : Proc} {events : List Event} (done : semaphoreUp p t s = .ok (r, events)) :
    Path (Caused p trace action) p trace r (trace ++ events) := by
  unfold semaphoreUp at done
  dsimp only at done
  split at done
  · rename_i owed
    have queue : (semaphoreRelease p t s).waitQueue (.semaphore s) = p.waitQueue (.semaphore s) :=
      congrArg (fun v => v.queues (.semaphore s)) (view_semaphoreRelease p t s)
    cases popped : popQueue (p.waitQueue (.semaphore s)) with
    | mk result ring =>
        cases result with
        | none => simp [Proc.wake, queue, popped] at done
        | some next =>
            simp only [Proc.wake, queue, popped, Except.ok.injEq, Prod.mk.injEq] at done
            obtain ⟨rfl, rfl⟩ := done
            have request : (semaphoreRelease p t s).semRequest = p.semRequest := by
              unfold semaphoreRelease
              split <;> rfl
            rw [show (((semaphoreRelease p t s).setWaitQueue (.semaphore s) ring).setThread next
              .runnable).semRequest = p.semRequest from request]
            exact Path.refl.add (.raiseWake t s next) trivial (.raiseWake runs known owed popped) rfl
  · rename_i free
    simp only [Except.ok.injEq, Prod.mk.injEq] at done
    obtain ⟨rfl, rfl⟩ := done
    exact Path.refl.add (.raise t s) trivial (.raise runs known (by omega)) rfl

/-- The effects of `semaphore_down` up to the switch. -/
theorem semaphoreDown_path {q : Proc} {t : Tid} {s : LockId} {sofar : List Event} (runs : q.current = some t)
    (known : s.val < q.nextSemaphoreId) (path : Path (Caused p trace action) p trace q sofar) {r : Proc}
    {events : List Event} (done : semaphoreDown q t s = .ok (r, events)) :
    Path (Caused p trace action) p trace r (sofar ++ events) := by
  unfold semaphoreDown at done
  dsimp only at done
  have lowered : ((q.setCount s ((q.semaphorePool s).count - 1)).semaphorePool s).count =
      (q.semaphorePool s).count - 1 := by
    simp [Proc.setCount, Proc.setSemaphore]
  have queue : (q.setCount s ((q.semaphorePool s).count - 1)).waitQueue (.semaphore s) =
      q.waitQueue (.semaphore s) :=
    congrArg (fun v => v.queues (.semaphore s)) (view_setCount q s _)
  rw [lowered] at done
  split at done
  · rename_i spent
    cases pushed : pushQueue (q.waitQueue (.semaphore s)) t with
    | error message => simp [Proc.block, queue, pushed] at done
    | ok ring =>
        simp only [Proc.block, queue, pushed, Except.ok.injEq, Prod.mk.injEq] at done
        obtain ⟨rfl, rfl⟩ := done
        exact path.add (.lowerBlock t s) trivial (.lowerBlock runs known (by omega) pushed) rfl
  · rename_i free
    simp only [Except.ok.injEq, Prod.mk.injEq] at done
    obtain ⟨rfl, rfl⟩ := done
    exact path.add (.lower t s) trivial (.lower runs known (by omega)) rfl

/-- The effects of `cond_wait` up to the switch. -/
theorem condWait_path {t : Tid} {c m : LockId} (runs : p.current = some t) (made : c.val < p.nextCondvarId)
    (known : m.val < p.nextMutexId) (unlocks : action.unlocks p = some m) {r : Proc} {events : List Event}
    (done : condWait p t c m = .ok (r, events)) :
    Path (Caused p trace action) p trace r (trace ++ events) := by
  unfold condWait at done
  cases unlocked : mutexUnlock p t m with
  | mk q emitted =>
      have path : Path (Caused p trace action) p trace q (trace ++ emitted) :=
        mutexUnlock_path runs known unlocks unlocked
      have kept := mutexUnlock_frame unlocked
      simp only [unlocked] at done
      cases pushed : pushQueue (q.waitQueue (.condvar c)) t with
      | error message => simp [Proc.block, pushed] at done
      | ok ring =>
          simp only [Proc.block, pushed, Except.ok.injEq, Prod.mk.injEq] at done
          obtain ⟨rfl, rfl⟩ := done
          exact path.add (.waitCond t c m) trivial
            (.waitCond (kept.1.trans runs) (by omega) (by omega) pushed) (List.append_nil _).symm

/-- The effects of a creation. -/
theorem create_path {t : Tid} {result : Option LockId × Proc} {after : Proc} {events : List Event}
    (path : Path (Caused p trace action) p trace result.2 trace)
    (stepped : completeCreate t result = some (after, events)) :
    Path (Caused p trace action) p trace after (trace ++ events) := by
  obtain ⟨id, r⟩ := result
  cases id with
  | none | some id =>
      simp only [completeCreate, Option.some.injEq, Prod.mk.injEq] at stepped
      obtain ⟨rfl, rfl⟩ := stepped
      exact path.add (.report t) trivial (.report t _) rfl

theorem mutexCreate_path (blocking : Int) :
    Path (Caused p trace (.mutexCreate blocking)) p trace (mutexCreate p blocking).2 trace := by
  unfold mutexCreate
  split
  · rename_i room
    refine Path.refl.add (.createMutex ⟨p.nextMutexId, room⟩ (decide (blocking ≠ 0))) ⟨blocking, rfl, rfl⟩
      (.createMutex _ rfl _ (fun blocks => ?_) fun blocks => ?_) (List.append_nil _).symm
    · simp only [blocks, if_true]
      exact ⟨Queue.initQueue_valid (by decide) _, rfl⟩
    · simp only [blocks, if_true]
      rfl
  · exact .refl

theorem semaphoreCreate_path (count : Int) :
    Path (Caused p trace (.semaphoreCreate count)) p trace (semaphoreCreate p count).2 trace := by
  unfold semaphoreCreate
  split
  · rename_i room
    exact Path.refl.add (.createSemaphore ⟨p.nextSemaphoreId, room⟩ count) ⟨rfl, rfl⟩
      (.createSemaphore count rfl _ ⟨Queue.initQueue_valid (by decide) _, rfl⟩ rfl) (List.append_nil _).symm
  · exact .refl

theorem condvarCreate_path : Path (Caused p trace action) p trace (condvarCreate p).2 trace := by
  unfold condvarCreate
  split
  · rename_i room
    exact Path.refl.add (.createCondvar ⟨p.nextCondvarId, room⟩) trivial
      (.createCondvar rfl _ ⟨Queue.initQueue_valid (by decide) _, rfl⟩ rfl) (List.append_nil _).symm
  · exact .refl

/-- A refused call only reports its error. -/
theorem report_path (t : Tid) (value : Int) {after : Proc} {events : List Event}
    (stepped : some (p, [Event.returned t value]) = some (after, events)) :
    Path (Caused p trace action) p trace after (trace ++ events) := by
  simp only [Option.some.injEq, Prod.mk.injEq] at stepped
  obtain ⟨rfl, rfl⟩ := stepped
  exact Path.refl.add (.report t) trivial (.report t value) rfl

/-- A lock request ends in an error, in the detector's refusal or in `mutex_lock`. -/
theorem sysMutexLock_path {t : Tid} (runs : p.current = some t) (mutexId : Int) {after : Proc}
    {events : List Event} (stepped : sysMutexLock p t mutexId = some (after, events)) :
    Path (Caused p trace (.mutexLock mutexId)) p trace after (trace ++ events) := by
  unfold sysMutexLock at stepped
  cases found : poolIndex p.nextMutexId mutexId with
  | none => exact report_path t (-1) (by simpa only [found] using stepped)
  | some m =>
      simp only [found] at stepped
      have known := poolIndex_lt found
      split at stepped
      · have cleared : Path (Caused p trace (.mutexLock mutexId)) p trace
            { p with mutexRequest := p.mutexRequest.set t m 0 } trace :=
          Path.refl.add (.clearMutexRequest t m) trivial (.clearMutexRequest runs) (List.append_nil _).symm
        split at stepped
        · simp only [Option.some.injEq, Prod.mk.injEq] at stepped
          obtain ⟨rfl, rfl⟩ := stepped
          exact cleared.add (.report t) trivial (.report t _) rfl
        · rename_i safe
          have acquires : Acquires p (.mutexLock mutexId) { p with mutexRequest := p.mutexRequest.set t m 0 } t m := by
            refine Or.inl ⟨found, fun _ => ?_⟩
            simpa only [RequestSafe, Matrix.set_set, Bool.not_eq_true] using safe
          refine complete_path (fun r emitted locked => ?_) stepped
          refine mutexLock_path ?_ ?_ acquires cleared locked
          · exact runs
          · exact known
      · rename_i disabled
        have acquires : Acquires p (.mutexLock mutexId) p t m :=
          Or.inl ⟨found, fun enabled => absurd enabled disabled⟩
        exact complete_path (fun r emitted locked => mutexLock_path runs known acquires .refl locked) stepped

theorem sysSemaphoreDown_path {t : Tid} (runs : p.current = some t) (semaphoreId : Int) {after : Proc}
    {events : List Event} (stepped : sysSemaphoreDown p t semaphoreId = some (after, events)) :
    Path (Caused p trace action) p trace after (trace ++ events) := by
  unfold sysSemaphoreDown at stepped
  cases found : poolIndex p.nextSemaphoreId semaphoreId with
  | none => exact report_path t (-1) (by simpa only [found] using stepped)
  | some s =>
      simp only [found] at stepped
      have known := poolIndex_lt found
      split at stepped
      · have cleared : Path (Caused p trace action) p trace
            { p with semRequest := p.semRequest.set t s 0 } trace :=
          Path.refl.add (.clearSemRequest t s) trivial (.clearSemRequest runs) (List.append_nil _).symm
        split at stepped
        · simp only [Option.some.injEq, Prod.mk.injEq] at stepped
          obtain ⟨rfl, rfl⟩ := stepped
          exact cleared.add (.report t) trivial (.report t _) rfl
        · refine complete_path (fun r emitted done => ?_) stepped
          refine semaphoreDown_path ?_ ?_ cleared done
          · exact runs
          · exact known
      · exact complete_path (fun r emitted done => semaphoreDown_path runs known .refl done) stepped

/-- The effects of a system call of the running thread. -/
theorem sysCall_path {t : Tid} (runs : p.current = some t) {after : Proc} {events : List Event}
    (stepped : sysCall p t action = some (after, events)) :
    Path (Caused p trace action) p trace after (trace ++ events) := by
  cases action with
  | schedule t => simp [sysCall] at stepped
  | yield =>
      simp only [sysCall, Option.some.injEq, Prod.mk.injEq] at stepped
      obtain ⟨rfl, rfl⟩ := stepped
      exact Path.refl.add (.preempt t) trivial (.preempt runs) rfl
  | mutexCreate blocking => exact create_path (mutexCreate_path blocking) stepped
  | mutexLock mutexId => exact sysMutexLock_path runs mutexId stepped
  | mutexUnlock mutexId =>
      simp only [sysCall, sysMutexUnlock] at stepped
      cases found : poolIndex p.nextMutexId mutexId with
      | none => exact report_path t (-1) (by simpa only [found] using stepped)
      | some m =>
          simp only [found] at stepped
          have unlocks : (Action.mutexUnlock mutexId).unlocks p = some m := found
          refine complete_path (fun r emitted done => ?_) stepped
          exact mutexUnlock_path runs (poolIndex_lt found) unlocks (Except.ok.inj done)
  | semaphoreCreate resCount => exact create_path (semaphoreCreate_path resCount) stepped
  | semaphoreUp semaphoreId =>
      simp only [sysCall, sysSemaphoreUp] at stepped
      cases found : poolIndex p.nextSemaphoreId semaphoreId with
      | none => exact report_path t (-1) (by simpa only [found] using stepped)
      | some s =>
          simp only [found] at stepped
          exact complete_path (fun r emitted done => semaphoreUp_path runs (poolIndex_lt found) done) stepped
  | semaphoreDown semaphoreId => exact sysSemaphoreDown_path runs semaphoreId stepped
  | condvarCreate => exact create_path condvarCreate_path stepped
  | condvarSignal condId =>
      simp only [sysCall, sysCondvarSignal] at stepped
      cases found : poolIndex p.nextCondvarId condId with
      | none => exact report_path t (-1) (by simpa only [found] using stepped)
      | some c =>
          simp only [found] at stepped
          refine complete_path (fun r emitted done => ?_) stepped
          simp only [condSignal, Except.ok.injEq, Prod.mk.injEq] at done
          obtain ⟨rfl, rfl⟩ := done
          cases popped : popQueue (p.waitQueue (.condvar c)) with
          | mk result ring =>
              cases result with
              | none =>
                  obtain rfl := Queue.popQueue_none_eq popped
                  simp only [Proc.wake, popped, Proc.setWaitQueue_self, List.append_nil]
                  exact .refl
              | some next =>
                  simp only [Proc.wake, popped]
                  exact Path.refl.add (.signal c next) trivial (.signal runs (poolIndex_lt found) popped) rfl
  | condvarWait condId mutexId =>
      simp only [sysCall, sysCondvarWait] at stepped
      cases made : poolIndex p.nextCondvarId condId with
      | none => exact report_path t (-1) (by simpa only [made] using stepped)
      | some c =>
          cases found : poolIndex p.nextMutexId mutexId with
          | none => exact report_path t (-1) (by simpa only [made, found] using stepped)
          | some m =>
              simp only [made, found] at stepped
              have unlocks : (Action.condvarWait condId mutexId).unlocks p = some m := by
                simp [Action.unlocks, made, found]
              exact complete_path (fun r emitted done =>
                condWait_path runs (poolIndex_lt made) (poolIndex_lt found) unlocks done) stepped
  | enableDeadlockDetect isEnable =>
      simp only [sysCall, Option.some.injEq, Prod.mk.injEq] at stepped
      obtain ⟨rfl, rfl⟩ := stepped
      have changed : Path (Caused p trace (.enableDeadlockDetect isEnable)) p trace
          { p with deadlockDetectEnable := decide (isEnable ≠ 0) } trace :=
        Path.refl.add .detect trivial (.detect _) (List.append_nil _).symm
      exact changed.add (.report t) trivial (.report t 0) rfl
  | threadCreate =>
      simp only [sysCall, sysThreadCreate] at stepped
      cases found : freeSlot p with
      | none => exact report_path t (-1) (by simpa only [found] using stepped)
      | some tid =>
          simp only [found, Option.some.injEq, Prod.mk.injEq] at stepped
          obtain ⟨rfl, rfl⟩ := stepped
          have free : p.threads tid = .unused := by simpa using List.find?_some found
          have source : p = p ∧ Action.threadCreate = .threadCreate ∧ freeSlot p = some tid := ⟨rfl, rfl, found⟩
          have base : Path (Caused p trace .threadCreate) p trace p trace := .refl
          have started := base.add (.start tid) source (.start runs free) rfl
          exact started.add (.report t) trivial (.report t tid.val) (by simp)
  | waittid tid =>
      simp only [sysCall, sysWaittid] at stepped
      split at stepped
      · split at stepped
        · exact report_path t (-1) stepped
        · split at stepped
          · exact report_path t (-2) stepped
          · rename_i ended
            simp only [not_not] at ended
            simp only [Option.some.injEq, Prod.mk.injEq] at stepped
            obtain ⟨rfl, rfl⟩ := stepped
            exact (Path.refl.add (.collect _) trivial (.collect ended) (List.append_nil _).symm).add (.report t)
              trivial (.report t _) rfl
      · exact report_path t (-1) stepped
  | exit code =>
      simp only [sysCall, Option.some.injEq, exit] at stepped
      split at stepped
      · rename_i main
        simp only [Prod.mk.injEq] at stepped
        obtain ⟨rfl, rfl⟩ := stepped
        exact Path.refl.add (.exitProcess t) trivial (.exitProcess code runs (Fin.ext main)) rfl
      · rename_i worker
        simp only [Prod.mk.injEq] at stepped
        obtain ⟨rfl, rfl⟩ := stepped
        exact Path.refl.add (.exit t) ⟨rfl, code, rfl⟩ (.exit code runs fun main => worker (by simp [main])) rfl

/-- A thread that polls a locked mutex once more leaves the process as it was. -/
theorem spin_again {t : Tid} {cont : Cont} (idle : p.current = none) (ready : p.threads t = .runnable)
    (saved : p.conts t = cont) : Proc.yield { p.setThread t .running with current := some t } t cont = p := by
  have threads : Function.update (Function.update p.threads t .running) t .runnable = p.threads := by
    rw [Function.update_idem, ← ready]
    exact Function.update_eq_self t p.threads
  have conts : Function.update p.conts t cont = p.conts := by
    rw [← saved]
    exact Function.update_eq_self t p.conts
  apply Proc.ext
  case current => exact idle.symm
  case threads => exact threads
  case conts => exact conts
  all_goals rfl

/-- The effects of a thread that the scheduler resumes. -/
theorem resume_path (wf : p.Wf) {t : Tid} (idle : p.current = none) (ready : p.threads t = .runnable) {after : Proc}
    {events : List Event}
    (stepped : resume { p.setThread t .running with current := some t } t = some (after, events)) :
    Path (Caused p trace (.schedule t)) p trace after (trace ++ events) := by
  have base : Path (Caused p trace (.schedule t)) p trace p trace := .refl
  unfold resume at stepped
  rw [show ({ p.setThread t .running with current := some t } : Proc).conts = p.conts from rfl] at stepped
  cases saved : p.conts t with
  | user =>
      simp only [saved, Option.some.injEq, Prod.mk.injEq] at stepped
      obtain ⟨rfl, rfl⟩ := stepped
      have entered : p.enter t = { p.setThread t .running with current := some t } := by
        have same : Function.update p.conts t .user = p.conts := by
          rw [← saved]
          exact Function.update_eq_self t p.conts
        exact congrArg (fun conts => { p.setThread t .running with current := some t, conts }) same
      rw [← entered]
      exact base.add (.dispatch t) trivial (.dispatch idle ready (Or.inl saved)) rfl
  | spinning m =>
      simp only [saved] at stepped
      split at stepped
      · simp only [Option.some.injEq, Prod.mk.injEq] at stepped
        obtain ⟨rfl, rfl⟩ := stepped
        rw [spin_again idle ready saved, List.append_nil]
        exact base
      · rename_i free
        refine complete_path (fun r emitted done => ?_) stepped
        simp only [mutexLockTail, Except.ok.injEq, Prod.mk.injEq] at done
        obtain ⟨rfl, rfl⟩ := done
        exact base.add (.leaveSpin t m) ⟨rfl, rfl⟩ (.leaveSpin idle ready saved ((Bool.not_eq_true _).mp free)) rfl
  | inLock m =>
      simp only [saved] at stepped
      refine complete_path (fun r emitted done => ?_) stepped
      simp only [mutexLockTail, Except.ok.injEq, Prod.mk.injEq] at done
      obtain ⟨rfl, rfl⟩ := done
      exact base.add (.resumeLock t m) trivial (.resumeLock idle ready saved) rfl
  | inDown s =>
      simp only [saved] at stepped
      refine complete_path (fun r emitted done => ?_) stepped
      simp only [semaphoreDownTail, Except.ok.injEq, Prod.mk.injEq] at done
      obtain ⟨rfl, rfl⟩ := done
      exact base.add (.resumeDown t s) ⟨rfl, rfl⟩ (.resumeDown idle ready saved) rfl
  | inWait c m =>
      simp only [saved] at stepped
      refine complete_path (fun r emitted done => ?_) stepped
      have entered : Path (Caused p trace (.schedule t)) p trace (p.enter t) trace :=
        base.add (.dispatch t) trivial (.dispatch idle ready (Or.inr ⟨c, m, saved⟩)) (List.append_nil _).symm
      have acquires : Acquires p (.schedule t) (p.enter t) t m := Or.inr ⟨rfl, ⟨c, saved⟩, rfl⟩
      have names := (wf.alive (Or.inr ready)).named t (Or.inr ready)
      rw [show p.view.conts t = .inWait c m from saved] at names
      have locked : mutexLock (p.enter t) t m = .ok (r, emitted) := done
      refine mutexLock_path ?_ ?_ acquires entered locked
      · rfl
      · exact names.2

/-- Every step decomposes into effects that its action causes. -/
theorem step_path (wf : p.Wf) {after : Proc} {events : List Event} (stepped : step p action = some (after, events)) :
    Path (Caused p trace action) p trace after (trace ++ events) := by
  unfold step at stepped
  cases idle : p.current with
  | none =>
      cases action with
      | schedule t =>
          simp only [idle] at stepped
          split at stepped
          · rename_i ready
            exact resume_path wf idle ready stepped
          · contradiction
      | _ => simp [idle] at stepped
  | some t => exact sysCall_path idle (by simpa only [idle] using stepped)

end Paths

/-- A process that is gone stays gone. -/
theorem Micro.dead {p q : Proc} {label : Label} {events : List Event} (effect : Micro p label events q)
    (dead : p.Dead) : q.Dead := by
  obtain ⟨idle, unused⟩ := dead
  cases effect with
  | report | detect | createMutex | createSemaphore | createCondvar => exact ⟨idle, unused⟩
  | collect ended => simp [unused] at ended
  | dispatch _ ready | leaveSpin _ ready | resumeLock _ ready | resumeDown _ ready => simp [unused] at ready
  | preempt runs | clearMutexRequest runs | clearSemRequest runs | take runs | poll runs | wait runs
  | release runs | handOver runs | «raise» runs | raiseWake runs | lower runs | lowerBlock runs
  | signal runs | waitCond runs | start runs | exit code runs | exitProcess code runs =>
      simp [idle] at runs

/-- Every effect keeps well-formedness. -/
theorem Micro.wf {p q : Proc} {label : Label} {events : List Event} (effect : Micro p label events q)
    (wf : p.Wf) : q.Wf := by
  rcases wf with dead | wf
  · exact Or.inl (effect.dead dead)
  · exact effect.view_wf wf

/-- At the start the main thread is RUNNABLE and no primitive exists. -/
theorem Initial.wf {p : Proc} (initial : Initial p) : p.Wf := by
  have absent (w : WaitId) : ¬p.view.created w := by
    cases w with
    | mutex id => simp [Proc.view, Proc.Created, initial.mutexes]
    | semaphore id => simp [Proc.view, Proc.Created, initial.semaphores]
    | condvar id => simp [Proc.view, Proc.Created, initial.condvars]
  have states (t : Tid) : p.threads t = .runnable ∧ t = 0 ∨ p.threads t = .unused := by
    by_cases main : t = 0
    · exact Or.inl ⟨main ▸ initial.main, main⟩
    · exact Or.inr (initial.others t main)
  refine Or.inr ⟨?_, ?_, ?_, ?_, ?_, ?_, ?_, ?_⟩
  · intro t
    show p.current = some t ↔ p.threads t = .running
    rcases states t with ⟨state, _⟩ | state <;> simp [state, initial.idle]
  · intro t runs
    rw [show p.view.current = none from initial.idle] at runs
    contradiction
  · exact fun id made => absurd made (absent _)
  · exact fun w made => absurd made (absent w)
  · exact fun w made => absurd made (absent w)
  · exact fun w t made => absurd made (absent w)
  · intro t sleeping
    change p.threads t = .sleeping at sleeping
    rcases states t with ⟨state, _⟩ | state <;> simp [state] at sleeping
  · intro t state
    change p.threads t = .sleeping ∨ p.threads t = .runnable at state
    rcases states t with ⟨_, rfl⟩ | unused
    · rw [show p.view.conts 0 = .user from initial.conts]
      trivial
    · simp [unused] at state

/-- A property that every permitted effect keeps holds after every run of the guard. -/
theorem run_invariant {guard : Proc → List Event → Action → Prop} (allowed : Proc → List Event → Label → Prop)
    (property : Proc → List Event → Prop) (base : ∀ p, Initial p → property p [])
    (permits : ∀ p trace action q sofar label, guard p trace action → Caused p trace action q sofar label →
      allowed q sofar label)
    (kept : ∀ p trace label events q, p.Wf → property p trace → allowed p trace label →
      Micro p label events q → property q (trace ++ events))
    {p : Proc} {trace : List Event} (reached : Machine.Reaches step guard Initial p trace) :
    p.Wf ∧ property p trace := by
  refine reached.invariant (fun p trace => p.Wf ∧ property p trace) (fun p initial => ⟨initial.wf, base p initial⟩)
    fun p trace action after events before meets stepped => ?_
  have path := (step_path before.1 stepped).weaken fun q sofar label => permits p trace action q sofar label meets
  refine path.invariant (fun q sofar => q.Wf ∧ property q sofar) (fun q sofar label emitted r ih permit effect => ?_)
    before
  exact ⟨effect.wf ih.1, kept q sofar label emitted r ih.1 ih.2 permit effect⟩

/-- A property of living processes holds after every run that does not end the process. -/
theorem run_invariant_alive {guard : Proc → List Event → Action → Prop}
    (allowed : Proc → List Event → Label → Prop) (property : Proc → List Event → Prop)
    (base : ∀ p, Initial p → property p [])
    (permits : ∀ p trace action q sofar label, guard p trace action → Caused p trace action q sofar label →
      allowed q sofar label)
    (kept : ∀ p trace label events q, p.view.Wf → property p trace → allowed p trace label →
      Micro p label events q → q.Dead ∨ property q (trace ++ events))
    {p : Proc} {trace : List Event} (reached : Machine.Reaches step guard Initial p trace) :
    p.Dead ∨ p.view.Wf ∧ property p trace := by
  have invariant := run_invariant allowed (fun p trace => p.Dead ∨ property p trace)
    (fun p initial => Or.inr (base p initial)) permits (fun p trace label events q wf before permit effect => ?_)
    reached
  · rcases invariant with ⟨dead | wf, dead | holds⟩
    · exact Or.inl dead
    · exact Or.inl dead
    · exact Or.inl dead
    · exact Or.inr ⟨wf, holds⟩
  · rcases wf with dead | wf
    · exact Or.inl (effect.dead dead)
    · rcases before with dead | holds
      · exact Or.inl (effect.dead dead)
      · exact kept p trace label events q wf holds permit effect

end BtbuOs.Sync
