import BtbuOs.Sync.Waiting

namespace BtbuOs.Sync

/-- The scheduler switches to the thread, which continues in user context. -/
def Proc.enter (p : Proc) (t : Tid) : Proc :=
  { (p.setThread t .running).setCont t .user with current := some t }

/-- Each label names one effect that a step can have. -/
inductive Label where
  | report (t : Tid)
  | detect
  | preempt (t : Tid)
  | dispatch (t : Tid)
  | createMutex (id : LockId) (blocking : Bool)
  | createSemaphore (id : LockId) (count : Int)
  | createCondvar (id : LockId)
  | clearMutexRequest (t : Tid) (m : LockId)
  | clearSemRequest (t : Tid) (s : LockId)
  | take (t : Tid) (m : LockId)
  | poll (t : Tid) (m : LockId)
  | leaveSpin (t : Tid) (m : LockId)
  | wait (t : Tid) (m : LockId)
  | resumeLock (t : Tid) (m : LockId)
  | release (t : Tid) (m : LockId)
  | handOver (t : Tid) (m : LockId) (next : Tid)
  | raise (t : Tid) (s : LockId)
  | raiseWake (t : Tid) (s : LockId) (next : Tid)
  | lower (t : Tid) (s : LockId)
  | lowerBlock (t : Tid) (s : LockId)
  | resumeDown (t : Tid) (s : LockId)
  | signal (c : LockId) (next : Tid)
  | waitCond (t : Tid) (c m : LockId)
  | start (t : Tid)
  | collect (t : Tid)
  | exit (t : Tid)
  | exitProcess (t : Tid)

/-- Every effect with the condition under which the code has it. -/
inductive Micro (p : Proc) : Label → List Event → Proc → Prop where
  | report (t : Tid) (value : Int) : Micro p (.report t) [.returned t value] p
  | detect (enable : Bool) : Micro p .detect [] { p with deadlockDetectEnable := enable }
  | preempt {t : Tid} (runs : p.current = some t) : Micro p (.preempt t) [] (p.yield t .user)
  | dispatch {t : Tid} (idle : p.current = none) (ready : p.threads t = .runnable)
      (outside : p.conts t = .user ∨ ∃ c m, p.conts t = .inWait c m) :
      Micro p (.dispatch t) [] (p.enter t)
  | createMutex {id : LockId} (blocking : Bool) (fresh : id.val = p.nextMutexId) (q : Queue Tid)
      (ring : blocking = true → q.Valid ∧ q.toList = []) (sized : blocking = true → q.size = waitQueueMaxLength) :
      Micro p (.createMutex id blocking) [] { p.setMutex id { blocking, locked := false, waitQueue := q } with
        nextMutexId := p.nextMutexId + 1 }
  | createSemaphore {id : LockId} (count : Int) (fresh : id.val = p.nextSemaphoreId) (q : Queue Tid)
      (ring : q.Valid ∧ q.toList = []) (sized : q.size = waitQueueMaxLength) :
      Micro p (.createSemaphore id count) [] { p.setSemaphore id { count, waitQueue := q } with
        nextSemaphoreId := p.nextSemaphoreId + 1 }
  | createCondvar {id : LockId} (fresh : id.val = p.nextCondvarId) (q : Queue Tid)
      (ring : q.Valid ∧ q.toList = []) (sized : q.size = waitQueueMaxLength) :
      Micro p (.createCondvar id) [] { p.setCondvar id { waitQueue := q } with
        nextCondvarId := p.nextCondvarId + 1 }
  | clearMutexRequest {t : Tid} {m : LockId} (runs : p.current = some t) :
      Micro p (.clearMutexRequest t m) [] { p with mutexRequest := p.mutexRequest.set t m 0 }
  | clearSemRequest {t : Tid} {s : LockId} (runs : p.current = some t) :
      Micro p (.clearSemRequest t s) [] { p with semRequest := p.semRequest.set t s 0 }
  | take {t : Tid} {m : LockId} (runs : p.current = some t) (known : m.val < p.nextMutexId)
      (free : (p.mutexPool m).locked = false) :
      Micro p (.take t m) [.locked t m] { p.setLocked m true with
        mutexAllocation := p.mutexAllocation.set t m 1 }
  | poll {t : Tid} {m : LockId} (runs : p.current = some t) (known : m.val < p.nextMutexId)
      (busy : (p.mutexPool m).locked = true) (spins : (p.mutexPool m).blocking = false) :
      Micro p (.poll t m) [] ({ p with mutexRequest := p.mutexRequest.set t m 1 }.yield t (.spinning m))
  | leaveSpin {t : Tid} {m : LockId} (idle : p.current = none) (ready : p.threads t = .runnable)
      (inside : p.conts t = .spinning m) (free : (p.mutexPool m).locked = false) :
      Micro p (.leaveSpin t m) [.locked t m] { p.enter t with
        mutexRequest := p.mutexRequest.set t m 0
        mutexAllocation := p.mutexAllocation.set t m 1 }
  | wait {t : Tid} {m : LockId} (runs : p.current = some t) (known : m.val < p.nextMutexId)
      (busy : (p.mutexPool m).locked = true) (blocks : (p.mutexPool m).blocking = true) {q : Queue Tid}
      (pushed : pushQueue (p.waitQueue (.mutex m)) t = .ok q) :
      Micro p (.wait t m) [] { ((p.setWaitQueue (.mutex m) q).setThread t .sleeping).sched t (.inLock m) with
        mutexRequest := p.mutexRequest.set t m 1 }
  | resumeLock {t : Tid} {m : LockId} (idle : p.current = none) (ready : p.threads t = .runnable)
      (inside : p.conts t = .inLock m) :
      Micro p (.resumeLock t m) [.locked t m] { p.enter t with
        mutexRequest := p.mutexRequest.set t m 0
        mutexAllocation := p.mutexAllocation.set t m 1 }
  | release {t : Tid} {m : LockId} (runs : p.current = some t) (known : m.val < p.nextMutexId)
      (unclaimed : (p.mutexPool m).blocking = true → (popQueue (p.waitQueue (.mutex m))).1 = none) :
      Micro p (.release t m) [.unlocked t m] { p.setLocked m false with
        mutexAllocation := p.mutexAllocation.set t m 0 }
  | handOver {t : Tid} {m : LockId} {next : Tid} (runs : p.current = some t) (known : m.val < p.nextMutexId)
      (blocks : (p.mutexPool m).blocking = true) {q : Queue Tid}
      (popped : popQueue (p.waitQueue (.mutex m)) = (some next, q)) :
      Micro p (.handOver t m next) [.unlocked t m]
        { (p.setWaitQueue (.mutex m) q).setThread next .runnable with
          mutexAllocation := (p.mutexAllocation.set t m 0).set next m 1
          mutexRequest := p.mutexRequest.set next m 0 }
  | raise {t : Tid} {s : LockId} (runs : p.current = some t) (known : s.val < p.nextSemaphoreId)
      (free : ((semaphoreRelease p t s).semaphorePool s).count > 0) :
      Micro p (.raise t s) [.up t s] (semaphoreRelease p t s)
  | raiseWake {t : Tid} {s : LockId} {next : Tid} (runs : p.current = some t)
      (known : s.val < p.nextSemaphoreId)
      (owed : ((semaphoreRelease p t s).semaphorePool s).count ≤ 0) {q : Queue Tid}
      (popped : popQueue (p.waitQueue (.semaphore s)) = (some next, q)) :
      Micro p (.raiseWake t s next) [.up t s, .acquired next s]
        { ((semaphoreRelease p t s).setWaitQueue (.semaphore s) q).setThread next .runnable with
          semRequest := p.semRequest.set next s 0
          semAllocation := (semaphoreRelease p t s).semAllocation.set next s
            ((semaphoreRelease p t s).semAllocation next s + 1) }
  | lower {t : Tid} {s : LockId} (runs : p.current = some t) (known : s.val < p.nextSemaphoreId)
      (free : (p.semaphorePool s).count > 0) :
      Micro p (.lower t s) [.downStarted t s, .acquired t s, .downReturned t s]
        { p.setCount s ((p.semaphorePool s).count - 1) with
          semAllocation := p.semAllocation.set t s (p.semAllocation t s + 1) }
  | lowerBlock {t : Tid} {s : LockId} (runs : p.current = some t) (known : s.val < p.nextSemaphoreId)
      (spent : (p.semaphorePool s).count ≤ 0) {q : Queue Tid}
      (pushed : pushQueue (p.waitQueue (.semaphore s)) t = .ok q) :
      Micro p (.lowerBlock t s) [.downStarted t s]
        { (((p.setCount s ((p.semaphorePool s).count - 1)).setWaitQueue (.semaphore s) q).setThread t
            .sleeping).sched t (.inDown s) with
          semRequest := p.semRequest.set t s 1 }
  | resumeDown {t : Tid} {s : LockId} (idle : p.current = none) (ready : p.threads t = .runnable)
      (inside : p.conts t = .inDown s) :
      Micro p (.resumeDown t s) [.downReturned t s] { p.enter t with
        semRequest := p.semRequest.set t s 0
        semAllocation := p.semAllocation.set t s (p.semAllocation t s + 1) }
  | signal {c : LockId} {next : Tid} {t : Tid} (runs : p.current = some t) (known : c.val < p.nextCondvarId)
      {q : Queue Tid} (popped : popQueue (p.waitQueue (.condvar c)) = (some next, q)) :
      Micro p (.signal c next) [] ((p.setWaitQueue (.condvar c) q).setThread next .runnable)
  | waitCond {t : Tid} {c m : LockId} (runs : p.current = some t) (made : c.val < p.nextCondvarId)
      (known : m.val < p.nextMutexId) {q : Queue Tid}
      (pushed : pushQueue (p.waitQueue (.condvar c)) t = .ok q) :
      Micro p (.waitCond t c m) []
        (((p.setWaitQueue (.condvar c) q).setThread t .sleeping).sched t (.inWait c m))
  | start {r t : Tid} (runs : p.current = some r) (free : p.threads t = .unused) :
      Micro p (.start t) [.started t] { (p.setThread t .runnable).setCont t .user with
        exitCode := Function.update p.exitCode t 0 }
  | collect {t : Tid} (ended : p.threads t = .exited) : Micro p (.collect t) [] (p.setThread t .unused)
  | exit {t : Tid} (code : Int) (runs : p.current = some t) (worker : t ≠ 0) :
      Micro p (.exit t) [.exited t] { p.setThread t .exited with
        exitCode := Function.update p.exitCode t code, current := none }
  | exitProcess {t : Tid} (code : Int) (runs : p.current = some t) (main : t = 0) :
      Micro p (.exitProcess t) ((List.finRange nthread).map .exited) { p with
        threads := fun _ => .unused
        exitCode := Function.update p.exitCode t code
        current := none }

/-- A path collects the effects of one step, each of them allowed at its own state and trace. -/
inductive Path (allowed : Proc → List Event → Label → Prop) (p : Proc) (trace : List Event) :
    Proc → List Event → Prop where
  | refl : Path allowed p trace p trace
  | tail {q r : Proc} {sofar events : List Event} {label : Label} (earlier : Path allowed p trace q sofar)
      (permit : allowed q sofar label) (effect : Micro q label events r) :
      Path allowed p trace r (sofar ++ events)

/-- A property that every allowed effect keeps holds at the end of a path. -/
theorem Path.invariant {allowed : Proc → List Event → Label → Prop} (property : Proc → List Event → Prop)
    (kept : ∀ p trace label events q, property p trace → allowed p trace label →
      Micro p label events q → property q (trace ++ events))
    {p q : Proc} {trace sofar : List Event} (path : Path allowed p trace q sofar)
    (base : property p trace) : property q sofar := by
  induction path with
  | refl => exact base
  | tail earlier permit effect ih => exact kept _ _ _ _ _ ih permit effect

/-- A changed mutex keeps the view when its kind and wait queue stay. -/
theorem view_setLocked (p : Proc) (id : LockId) (locked : Bool) : (p.setLocked id locked).view = p.view := by
  have created : (p.setLocked id locked).Created = p.Created := by
    funext w
    cases w with
    | mutex other =>
        by_cases same : other = id
        · simp [Proc.Created, Proc.setLocked, Proc.setMutex, same]
        · simp [Proc.Created, Proc.setLocked, Proc.setMutex, same]
    | semaphore | condvar => rfl
  have queues : (p.setLocked id locked).waitQueue = p.waitQueue := by
    funext w
    cases w with
    | mutex other =>
        by_cases same : other = id
        · simp [Proc.waitQueue, Proc.setLocked, Proc.setMutex, same]
        · simp [Proc.waitQueue, Proc.setLocked, Proc.setMutex, same]
    | semaphore | condvar => rfl
  simp only [Proc.view, created, queues]
  rfl

theorem view_setCount (p : Proc) (id : LockId) (count : Int) : (p.setCount id count).view = p.view := by
  have queues : (p.setCount id count).waitQueue = p.waitQueue := by
    funext w
    cases w with
    | semaphore other =>
        by_cases same : other = id
        · simp [Proc.waitQueue, Proc.setCount, Proc.setSemaphore, same]
        · simp [Proc.waitQueue, Proc.setCount, Proc.setSemaphore, same]
    | mutex | condvar => rfl
  have created : (p.setCount id count).Created = p.Created := by
    funext w
    cases w <;> rfl
  simp only [Proc.view, created, queues]
  rfl

theorem view_semaphoreRelease (p : Proc) (t : Tid) (s : LockId) : (semaphoreRelease p t s).view = p.view := by
  unfold semaphoreRelease
  split
  · exact view_setCount { p with semAllocation := _ } s _
  · exact view_setCount p s _

/-- The write of a wait queue touches no other queue. -/
theorem waitQueue_setWaitQueue (p : Proc) (w : WaitId) (q : Queue Tid) :
    (p.setWaitQueue w q).waitQueue = Function.update p.waitQueue w q := by
  funext u
  by_cases same : u = w
  · subst same
    cases u <;> simp [Proc.waitQueue, Proc.setWaitQueue, Proc.setMutex, Proc.setSemaphore, Proc.setCondvar]
  · rw [Function.update_of_ne same]
    cases w <;> cases u <;> first | rfl | skip
    all_goals
      rename_i id other
      have other : other ≠ id := fun equal => same (by rw [equal])
      simp [Proc.waitQueue, Proc.setWaitQueue, Proc.setMutex, Proc.setSemaphore, Proc.setCondvar, other]

theorem view_setWaitQueue (p : Proc) (w : WaitId) (q : Queue Tid) :
    (p.setWaitQueue w q).view = p.view.setQueue w q := by
  have created : (p.setWaitQueue w q).Created = p.Created := by
    funext u
    cases w with
    | mutex id =>
        cases u with
        | mutex other =>
            by_cases same : other = id
            · simp [Proc.Created, Proc.setWaitQueue, Proc.setMutex, same]
            · simp [Proc.Created, Proc.setWaitQueue, Proc.setMutex, same]
        | semaphore | condvar => rfl
    | semaphore id | condvar id => cases u <;> rfl
  have rest : (p.setWaitQueue w q).current = p.current ∧ (p.setWaitQueue w q).threads = p.threads ∧
      (p.setWaitQueue w q).conts = p.conts ∧ (p.setWaitQueue w q).nextMutexId = p.nextMutexId := by
    cases w <;> exact ⟨rfl, rfl, rfl, rfl⟩
  obtain ⟨current, threads, conts, next⟩ := rest
  simp only [Proc.view, View.setQueue, created, waitQueue_setWaitQueue, current, threads, conts, next]

/-- The exit of the main thread leaves no thread behind. -/
def Proc.Dead (p : Proc) : Prop := p.current = none ∧ ∀ t, p.threads t = .unused

/-- A process is gone, or its sleepers and wait queues agree. -/
def Proc.Wf (p : Proc) : Prop := p.Dead ∨ p.view.Wf

/-- A process with a running or RUNNABLE thread is not gone. -/
theorem Proc.Wf.alive {p : Proc} (wf : p.Wf) {t : Tid}
    (live : p.current = some t ∨ p.threads t = .runnable) : p.view.Wf := by
  rcases wf with ⟨idle, unused⟩ | wf
  · rcases live with runs | ready
    · simp [idle] at runs
    · simp [unused t] at ready
  · exact wf

/-- The next identifier is the only one that a creation adds. -/
theorem lt_succ_iff {id other : LockId} {next : Nat} (fresh : id.val = next) :
    other.val < next + 1 ↔ other.val < next ∨ other = id := by
  rw [Fin.ext_iff, fresh]
  omega

/-- A new mutex brings its own wait queue. -/
theorem waitQueue_createMutex (p : Proc) (id : LockId) (m : Mutex) :
    Proc.waitQueue { p.setMutex id m with nextMutexId := p.nextMutexId + 1 } =
      Function.update p.waitQueue (.mutex id) m.waitQueue := by
  rw [← waitQueue_setWaitQueue p (.mutex id) m.waitQueue]
  funext u
  cases u with
  | mutex other =>
      by_cases same : other = id
      · subst same
        simp [Proc.waitQueue, Proc.setWaitQueue, Proc.setMutex]
      · simp [Proc.waitQueue, Proc.setWaitQueue, Proc.setMutex, same]
  | semaphore | condvar => rfl

theorem created_createMutex {p : Proc} {id : LockId} (m : Mutex) (fresh : id.val = p.nextMutexId) (u : WaitId) :
    Proc.Created { p.setMutex id m with nextMutexId := p.nextMutexId + 1 } u ↔
      p.Created u ∨ u = .mutex id ∧ m.blocking = true := by
  cases u with
  | mutex other =>
      by_cases same : other = id
      · subst same
        simp [Proc.Created, Proc.setMutex, fresh]
      · simp [Proc.Created, Proc.setMutex, same, lt_succ_iff fresh]
  | semaphore other => simp [Proc.Created, Proc.setMutex]
  | condvar other => simp [Proc.Created, Proc.setMutex]

theorem waitQueue_createSemaphore (p : Proc) (id : LockId) (s : Semaphore) :
    Proc.waitQueue { p.setSemaphore id s with nextSemaphoreId := p.nextSemaphoreId + 1 } =
      Function.update p.waitQueue (.semaphore id) s.waitQueue := by
  rw [← waitQueue_setWaitQueue p (.semaphore id) s.waitQueue]
  funext u
  cases u with
  | semaphore other =>
      by_cases same : other = id
      · subst same
        simp [Proc.waitQueue, Proc.setWaitQueue, Proc.setSemaphore]
      · simp [Proc.waitQueue, Proc.setWaitQueue, Proc.setSemaphore, same]
  | mutex | condvar => rfl

theorem created_createSemaphore {p : Proc} {id : LockId} (s : Semaphore) (fresh : id.val = p.nextSemaphoreId)
    (u : WaitId) : Proc.Created { p.setSemaphore id s with nextSemaphoreId := p.nextSemaphoreId + 1 } u ↔
      p.Created u ∨ u = .semaphore id ∧ True := by
  cases u with
  | semaphore other => simp [Proc.Created, lt_succ_iff fresh]
  | mutex other => simp [Proc.Created, Proc.setSemaphore]
  | condvar other => simp [Proc.Created, Proc.setSemaphore]

theorem waitQueue_createCondvar (p : Proc) (id : LockId) (c : Condvar) :
    Proc.waitQueue { p.setCondvar id c with nextCondvarId := p.nextCondvarId + 1 } =
      Function.update p.waitQueue (.condvar id) c.waitQueue := by
  rw [← waitQueue_setWaitQueue p (.condvar id) c.waitQueue]
  funext u
  cases u <;> rfl

theorem created_createCondvar {p : Proc} {id : LockId} (c : Condvar) (fresh : id.val = p.nextCondvarId) (u : WaitId) :
    Proc.Created { p.setCondvar id c with nextCondvarId := p.nextCondvarId + 1 } u ↔
      p.Created u ∨ u = .condvar id ∧ True := by
  cases u with
  | condvar other => simp [Proc.Created, lt_succ_iff fresh]
  | mutex other => simp [Proc.Created, Proc.setCondvar]
  | semaphore other => simp [Proc.Created, Proc.setCondvar]

/-- A fresh identifier names nothing that exists. -/
theorem fresh_mutex {p : Proc} {id : LockId} (fresh : id.val = p.nextMutexId) : ¬p.view.created (.mutex id) :=
  fun made => absurd made.1 (by omega)

theorem fresh_semaphore {p : Proc} {id : LockId} (fresh : id.val = p.nextSemaphoreId) :
    ¬p.view.created (.semaphore id) :=
  fun made => absurd made (by simp [Proc.view, Proc.Created, fresh])

theorem fresh_condvar {p : Proc} {id : LockId} (fresh : id.val = p.nextCondvarId) : ¬p.view.created (.condvar id) :=
  fun made => absurd made (by simp [Proc.view, Proc.Created, fresh])

theorem View.Wf.createMutex {p : Proc} (wf : p.view.Wf) {id : LockId} (blocking : Bool)
    (fresh : id.val = p.nextMutexId) {q : Queue Tid} (ring : blocking = true → q.Valid ∧ q.toList = []) :
    Proc.view { p.setMutex id { blocking, locked := false, waitQueue := q } with
      nextMutexId := p.nextMutexId + 1 } |>.Wf := by
  simp only [Proc.view, waitQueue_createMutex]
  apply wf.create (fresh_mutex fresh) ring
  · exact fun other known => (lt_succ_iff fresh).mpr (Or.inl known)
  · exact fun other made => made.1
  · exact created_createMutex _ fresh

theorem View.Wf.createSemaphore {p : Proc} (wf : p.view.Wf) {id : LockId} (count : Int)
    (fresh : id.val = p.nextSemaphoreId) {q : Queue Tid} (ring : q.Valid ∧ q.toList = []) :
    Proc.view { p.setSemaphore id { count, waitQueue := q } with
      nextSemaphoreId := p.nextSemaphoreId + 1 } |>.Wf := by
  simp only [Proc.view, waitQueue_createSemaphore]
  apply wf.create (fresh_semaphore fresh) (fun _ : True => ring)
  · exact fun other known => known
  · exact fun other made => made.1
  · exact created_createSemaphore _ fresh

theorem View.Wf.createCondvar {p : Proc} (wf : p.view.Wf) {id : LockId}
    (fresh : id.val = p.nextCondvarId) {q : Queue Tid} (ring : q.Valid ∧ q.toList = []) :
    Proc.view { p.setCondvar id { waitQueue := q } with nextCondvarId := p.nextCondvarId + 1 } |>.Wf := by
  simp only [Proc.view, waitQueue_createCondvar]
  apply wf.create (fresh_condvar fresh) (fun _ : True => ring)
  · exact fun other known => known
  · exact fun other made => made.1
  · exact created_createCondvar _ fresh

/-- Every effect keeps the agreement of threads and queues. -/
theorem Micro.view_wf {p q : Proc} {label : Label} {events : List Event}
    (effect : Micro p label events q) (wf : p.view.Wf) : q.Wf := by
  cases effect with
  | report t value => exact Or.inr wf
  | detect enable => exact Or.inr wf
  | preempt runs => exact Or.inr (wf.yield runs trivial)
  | dispatch idle ready outside => exact Or.inr (wf.enter idle ready)
  | createMutex blocking fresh q ring => exact Or.inr (wf.createMutex blocking fresh ring)
  | createSemaphore count fresh q ring => exact Or.inr (wf.createSemaphore count fresh ring)
  | createCondvar fresh q ring => exact Or.inr (wf.createCondvar fresh ring)
  | clearMutexRequest runs => exact Or.inr wf
  | clearSemRequest runs => exact Or.inr wf
  | take runs known free =>
      refine Or.inr ?_
      change (p.setLocked _ true).view.Wf
      rwa [view_setLocked]
  | poll runs known busy spins => exact Or.inr (wf.yield runs known)
  | leaveSpin idle ready inside free => exact Or.inr (wf.enter idle ready)
  | wait runs known busy blocks pushed =>
      rename_i t m q
      have made : p.view.created (.mutex m) := ⟨known, blocks⟩
      refine Or.inr ?_
      change ((p.setWaitQueue (.mutex m) q).view.leave t .sleeping (.inLock m)).Wf
      rw [view_setWaitQueue]
      exact View.Wf.block wf runs (show (Cont.inLock m).waitId = some (.mutex m) from rfl) made made pushed
  | resumeLock idle ready inside => exact Or.inr (wf.enter idle ready)
  | release runs known unclaimed =>
      refine Or.inr ?_
      change (p.setLocked _ false).view.Wf
      rwa [view_setLocked]
  | handOver runs known blocks popped =>
      rename_i t m next q
      refine Or.inr ?_
      change ((p.setWaitQueue (.mutex m) q).view.setThread next .runnable).Wf
      rw [view_setWaitQueue]
      have made : p.view.created (.mutex m) := ⟨known, blocks⟩
      exact wf.wake made popped
  | «raise» runs known free =>
      refine Or.inr ?_
      rwa [view_semaphoreRelease]
  | raiseWake runs known owed popped =>
      rename_i t s next q
      refine Or.inr ?_
      change (((semaphoreRelease p t s).setWaitQueue (.semaphore s) q).view.setThread next .runnable).Wf
      rw [view_setWaitQueue, view_semaphoreRelease]
      have made : p.view.created (.semaphore s) := known
      exact wf.wake made popped
  | lower runs known free =>
      refine Or.inr ?_
      change (p.setCount _ _).view.Wf
      rwa [view_setCount]
  | lowerBlock runs known spent pushed =>
      rename_i t s q
      have made : p.view.created (.semaphore s) := known
      refine Or.inr ?_
      change (((p.setCount s _).setWaitQueue (.semaphore s) q).view.leave t .sleeping (.inDown s)).Wf
      rw [view_setWaitQueue, view_setCount]
      exact View.Wf.block wf runs (show (Cont.inDown s).waitId = some (.semaphore s) from rfl) made made pushed
  | resumeDown idle ready inside => exact Or.inr (wf.enter idle ready)
  | signal runs known popped =>
      rename_i c next t q
      refine Or.inr ?_
      change ((p.setWaitQueue (.condvar c) q).view.setThread next .runnable).Wf
      rw [view_setWaitQueue]
      have made : p.view.created (.condvar c) := known
      exact wf.wake made popped
  | waitCond runs made known pushed =>
      rename_i t c m q
      refine Or.inr ?_
      change ((p.setWaitQueue (.condvar c) q).view.leave t .sleeping (.inWait c m)).Wf
      rw [view_setWaitQueue]
      have present : p.view.created (.condvar c) := made
      have names : p.view.Names (.inWait c m) := ⟨made, known⟩
      exact View.Wf.block wf runs (show (Cont.inWait c m).waitId = some (.condvar c) from rfl) names present pushed
  | start runs free => exact Or.inr (wf.reset (Or.inl free) (by simp) (by simp) fun _ => trivial)
  | collect ended =>
      rename_i t
      have changed : View.Wf { p.view.setThread t .unused with
          conts := Function.update p.view.conts t (p.conts t) } :=
        wf.reset (Or.inr ended) (by simp) (by simp) (by simp)
      rw [show Function.update p.view.conts t (p.conts t) = p.conts from Function.update_eq_self t p.conts] at changed
      exact Or.inr changed
  | exit code runs worker => exact Or.inr (wf.exit runs)
  | exitProcess code runs main => exact Or.inl ⟨rfl, fun _ => rfl⟩

end BtbuOs.Sync
