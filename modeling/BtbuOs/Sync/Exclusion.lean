import BtbuOs.Sync.Effects

namespace BtbuOs.Sync

open Machine

/-- One event moves a thread into or out of the section that the mutex protects. -/
def holdEvent (t : Tid) (m : LockId) (held : Bool) : Event → Bool
  | .locked owner id => held || (owner == t && id == m)
  | .unlocked owner id => held && !(owner == t && id == m)
  | .started owner | .exited owner => held && !(owner == t)
  | _ => held

/-- The thread has returned from a lock of the mutex and has not unlocked it since. -/
def inside (t : Tid) (m : LockId) (trace : List Event) : Bool := trace.foldl (holdEvent t m) false

/-- At most one thread is inside, and the lock is taken while one is. -/
def Exclusive (p : Proc) (trace : List Event) : Prop :=
  ∀ m, (∀ t u, inside t m trace = true → inside u m trace = true → t = u) ∧
    ∀ t, inside t m trace = true → (p.mutexPool m).locked = true

/-- Each thread unlocks only a mutex that it is inside of. -/
def Disciplined (p : Proc) (trace : List Event) (action : Action) : Prop :=
  ∀ t m, p.current = some t → action.unlocks p = some m → inside t m trace = true

/-- A thread that polls is scheduled only while the mutex is taken. -/
def SpinsOn (p : Proc) (action : Action) : Prop :=
  ∀ t m, action = .schedule t → p.conts t = .spinning m → (p.mutexPool m).locked = true

instance (p : Proc) (trace : List Event) (action : Action) : Decidable (Disciplined p trace action) :=
  inferInstanceAs (Decidable (∀ _ _, _ → _ → _))

instance (p : Proc) (action : Action) : Decidable (SpinsOn p action) :=
  inferInstanceAs (Decidable (∀ _ _, _ → _ → _))

theorem inside_append (t : Tid) (m : LockId) (trace events : List Event) :
    inside t m (trace ++ events) = events.foldl (holdEvent t m) (inside t m trace) :=
  List.foldl_append

/-- The exit of the main thread takes every thread out. -/
theorem inside_exits (t : Tid) (m : LockId) (trace : List Event) :
    inside t m (trace ++ (List.finRange nthread).map .exited) = false := by
  have fold (threads : List Tid) (held : Bool) :
      (threads.map Event.exited).foldl (holdEvent t m) held = (held && !threads.contains t) := by
    induction threads generalizing held with
    | nil => simp
    | cons first rest ih =>
        simp only [List.map_cons, List.foldl_cons, ih, holdEvent, List.contains_cons]
        cases held <;> simp [Bool.beq_comm]
  rw [inside, List.foldl_append, fold]
  simp

/-- A thread owns a mutex when it is inside or when an unlock handed the mutex to it. -/
def Owner (p : Proc) (trace : List Event) (m : LockId) (t : Tid) : Prop :=
  inside t m trace = true ∨ p.threads t = .runnable ∧ p.conts t = .inLock m

/-- The invariant behind mutual exclusion. -/
structure Owned (p : Proc) (trace : List Event) : Prop where
  unique : ∀ m t u, Owner p trace m t → Owner p trace m u → t = u
  locked : ∀ m t, Owner p trace m t → (p.mutexPool m).locked = true
  known : ∀ m t, Owner p trace m t → m.val < p.nextMutexId

/-- A new wait queue leaves the lock words alone. -/
@[simp] theorem setWaitQueue_locked (p : Proc) (w : WaitId) (q : Queue Tid) (m : LockId) :
    ((p.setWaitQueue w q).mutexPool m).locked = (p.mutexPool m).locked := by
  cases w with
  | mutex id => by_cases same : m = id <;> simp [Proc.setWaitQueue, Proc.setMutex, same]
  | semaphore | condvar => rfl

/-- A thread in this state and context was handed no mutex. -/
def Unhanded (state : ThreadState) (cont : Cont) : Prop := ∀ m, ¬(state = .runnable ∧ cont = .inLock m)

/-- A released unit touches neither threads nor mutexes. -/
theorem semaphoreRelease_frame (p : Proc) (t : Tid) (s : LockId) :
    (semaphoreRelease p t s).threads = p.threads ∧ (semaphoreRelease p t s).conts = p.conts ∧
      (semaphoreRelease p t s).mutexPool = p.mutexPool ∧
      (semaphoreRelease p t s).nextMutexId = p.nextMutexId := by
  unfold semaphoreRelease
  split <;> exact ⟨rfl, rfl, rfl, rfl⟩

/-- The labels that the discipline and the spin condition admit. -/
def SafeLabel (p : Proc) (trace : List Event) : Label → Prop
  | .release t m | .handOver t m _ => p.current = some t → inside t m trace = true
  | .leaveSpin t m => p.conts t = .spinning m → (p.mutexPool m).locked = true
  | _ => True

/-- The labels that take a mutex from nobody but the caller or the waiter that gets it. -/
def FairLabel (p : Proc) (trace : List Event) : Label → Prop
  | .release t m => Owner p trace m t ∨ (p.mutexPool m).locked = false
  | .handOver t m next => Owner p trace m t ∨ Owner p trace m next
  | .leaveSpin t m => p.conts t = .spinning m → (p.mutexPool m).locked = true
  | _ => True

theorem SafeLabel.fair {p q : Proc} {trace events : List Event} {label : Label} (safe : SafeLabel p trace label)
    (effect : Micro p label events q) : FairLabel p trace label := by
  cases effect with
  | release runs known unclaimed => exact Or.inl (Or.inl (safe runs))
  | handOver runs known blocks popped => exact Or.inl (Or.inl (safe runs))
  | leaveSpin => exact safe
  | _ => trivial

theorem safeLabel_of_caused {p q : Proc} {trace sofar : List Event} {action : Action} {label : Label}
    (disciplined : Disciplined p trace action) (spins : SpinsOn p action)
    (caused : Caused p trace action q sofar label) : SafeLabel q sofar label := by
  cases label with
  | release t m | handOver t m next =>
      obtain ⟨rfl, rfl, unlocks⟩ := caused
      exact fun runs => disciplined t m runs unlocks
  | leaveSpin t m =>
      obtain ⟨rfl, scheduled⟩ := caused
      exact spins t m scheduled
  | _ => trivial

section States

variable {p : Proc} {t : Tid}

theorem states_update {state : ThreadState} {cont : Cont} (quiet : Unhanded state cont) (s : Tid) :
    Function.update p.threads t state s = p.threads s ∧ Function.update p.conts t cont s = p.conts s ∨
      Unhanded (Function.update p.threads t state s) (Function.update p.conts t cont s) := by
  by_cases same : s = t
  · subst same
    exact Or.inr (by simpa using quiet)
  · exact Or.inl (by simp [same])

theorem states_thread {state : ThreadState} (quiet : Unhanded state (p.conts t)) (s : Tid) :
    Function.update p.threads t state s = p.threads s ∧ p.conts s = p.conts s ∨
      Unhanded (Function.update p.threads t state s) (p.conts s) := by
  by_cases same : s = t
  · subst same
    exact Or.inr (by simpa using quiet)
  · exact Or.inl (by simp [same])

end States

/-- A thread in a queue of another kind than a mutex is handed none when it wakes. -/
theorem unhanded_of_popped {p : Proc} (wf : p.view.Wf) {w : WaitId} (made : p.Created w) {next : Tid} {q : Queue Tid}
    (popped : popQueue (p.waitQueue w) = (some next, q)) (other : ∀ m, w ≠ .mutex m) (state : ThreadState) :
    Unhanded state (p.conts next) := by
  obtain ⟨_, content, _⟩ := Queue.popQueue_some (wf.rings w made) popped
  have member : next ∈ (p.view.queues w).toList := by rw [content]; exact List.mem_cons_self
  have waits := (wf.queued w next made member).2
  intro m handed
  rw [show p.view.conts next = .inLock m from handed.2] at waits
  exact other m (Option.some.inj waits).symm

/-- The label makes this thread the owner of the mutex. -/
def Gains (label : Label) (m : LockId) (t : Tid) : Prop :=
  label = .take t m ∨ label = .leaveSpin t m ∨ ∃ giver, label = .handOver giver m t

/-- The label takes the mutex away from this thread. -/
def Loses (label : Label) (m : LockId) (t : Tid) : Prop :=
  label = .release t m ∨ ∃ next, label = .handOver t m next

/-- An owner owned the mutex before, or the effect gave it the mutex. -/
theorem Micro.owner {p q : Proc} {trace events : List Event} {label : Label} (effect : Micro p label events q)
    (wf : p.Wf) {n : LockId} {u : Tid} (owner : Owner q (trace ++ events) n u) :
    Gains label n u ∨ Owner p trace n u ∧ ¬Loses label n u := by
  have stays (states : q.threads u = p.threads u ∧ q.conts u = p.conts u ∨ Unhanded (q.threads u) (q.conts u))
      (entered : inside u n (trace ++ events) = true → inside u n trace = true) : Owner p trace n u := by
    rcases owner with present | handed
    · exact Or.inl (entered present)
    · rcases states with ⟨threads, conts⟩ | quiet
      · exact Or.inr (by rwa [← threads, ← conts])
      · exact absurd handed (quiet n)
  have same : p.threads u = p.threads u ∧ p.conts u = p.conts u ∨ Unhanded (p.threads u) (p.conts u) :=
    Or.inl ⟨rfl, rfl⟩
  cases effect with
  | report t value =>
      exact Or.inr ⟨stays same (by simp [inside_append, holdEvent]), by simp [Loses]⟩
  | detect | clearMutexRequest | clearSemRequest | createMutex | createSemaphore | createCondvar =>
      exact Or.inr ⟨stays same (by simp), by simp [Loses]⟩
  | preempt | dispatch | poll =>
      exact Or.inr ⟨stays (states_update (by simp [Unhanded]) u) (by simp), by simp [Loses]⟩
  | take runs known free =>
      rename_i t m
      rcases owner with present | ready
      · simp only [inside_append, List.foldl_cons, List.foldl_nil, holdEvent, Bool.or_eq_true, Bool.and_eq_true,
          beq_iff_eq] at present
        rcases present with old | ⟨rfl, rfl⟩
        · exact Or.inr ⟨Or.inl old, by simp [Loses]⟩
        · exact Or.inl (Or.inl rfl)
      · exact Or.inr ⟨Or.inr ready, by simp [Loses]⟩
  | leaveSpin idle ready polls free =>
      rename_i t m
      by_cases gained : t = u ∧ m = n
      · obtain ⟨rfl, rfl⟩ := gained
        exact Or.inl (Or.inr (Or.inl rfl))
      · refine Or.inr ⟨stays (states_update (by simp [Unhanded]) u) (fun present => ?_), by simp [Loses]⟩
        have other : (t == u && m == n) = false := by
          rw [Bool.and_eq_false_iff, beq_eq_false_iff_ne, beq_eq_false_iff_ne]
          exact not_and_or.mp gained
        simpa [inside_append, holdEvent, other] using present
  | wait => exact Or.inr ⟨stays (states_update (by simp [Unhanded]) u) (by simp), by simp [Loses]⟩
  | resumeLock idle ready handed =>
      rename_i t m
      by_cases gained : t = u ∧ m = n
      · obtain ⟨rfl, rfl⟩ := gained
        exact Or.inr ⟨Or.inr ⟨ready, handed⟩, by simp [Loses]⟩
      · refine Or.inr ⟨stays (states_update (by simp [Unhanded]) u) (fun present => ?_), by simp [Loses]⟩
        have other : (t == u && m == n) = false := by
          rw [Bool.and_eq_false_iff, beq_eq_false_iff_ne, beq_eq_false_iff_ne]
          exact not_and_or.mp gained
        simpa [inside_append, holdEvent, other] using present
  | release runs known unclaimed =>
      rename_i t m
      have running : p.threads t = .running := ((wf.alive (Or.inl runs)).running t).mp runs
      refine Or.inr ⟨stays same fun present => ?_, ?_⟩
      · simp only [inside_append, List.foldl_cons, List.foldl_nil, holdEvent, Bool.and_eq_true] at present
        exact present.1
      · intro lost
        obtain ⟨rfl, rfl⟩ : t = u ∧ m = n := by simpa [Loses] using lost
        rcases owner with present | ready
        · simp [inside_append, holdEvent] at present
        · have runnable : p.threads t = .runnable := ready.1
          simp [running] at runnable
  | handOver runs known blocks popped =>
      rename_i t m next ring
      have alive := wf.alive (Or.inl runs)
      have running : p.threads t = .running := (alive.running t).mp runs
      have made : p.view.created (.mutex m) := ⟨known, blocks⟩
      obtain ⟨_, content, _⟩ := Queue.popQueue_some (alive.rings _ made) popped
      have waits := alive.queued _ next made (by rw [content]; exact List.mem_cons_self)
      rcases owner with present | ready
      · simp only [inside_append, List.foldl_cons, List.foldl_nil, holdEvent, Bool.and_eq_true] at present
        refine Or.inr ⟨Or.inl present.1, fun lost => ?_⟩
        obtain ⟨rfl, rfl⟩ : t = u ∧ m = n := by simpa [Loses] using lost
        simp at present
      · by_cases woken : u = next
        · subst woken
          have own : p.view.conts u = .inLock n := ready.2
          rw [own] at waits
          have equal : m = n := by
            have inner := Option.some.inj waits.2
            injection inner with mutex
            exact mutex.symm
          exact Or.inl (Or.inr (Or.inr ⟨t, by rw [equal]⟩))
        · have old : p.threads u = .runnable ∧ p.conts u = .inLock n := by
            simpa [Proc.setThread, Proc.setWaitQueue, Proc.setMutex, woken] using ready
          refine Or.inr ⟨Or.inr old, fun lost => ?_⟩
          obtain ⟨rfl, rfl⟩ : t = u ∧ m = n := by simpa [Loses] using lost
          simp [running] at old
  | «raise» runs known free =>
      rename_i t s
      obtain ⟨threads, conts, _⟩ := semaphoreRelease_frame p t s
      exact Or.inr ⟨stays (Or.inl ⟨by rw [threads], by rw [conts]⟩) (by simp [inside_append, holdEvent]), by simp [Loses]⟩
  | raiseWake runs known owed popped =>
      rename_i t s next ring
      obtain ⟨threads, conts, _⟩ := semaphoreRelease_frame p t s
      have made : p.Created (.semaphore s) := known
      have quiet := unhanded_of_popped (wf.alive (Or.inl runs)) made popped (by simp) .runnable
      refine Or.inr ⟨stays ?_ (by simp [inside_append, holdEvent]), by simp [Loses]⟩
      show Function.update (semaphoreRelease p t s).threads next .runnable u = p.threads u ∧
        (semaphoreRelease p t s).conts u = p.conts u ∨
          Unhanded (Function.update (semaphoreRelease p t s).threads next .runnable u)
            ((semaphoreRelease p t s).conts u)
      rw [threads, conts]
      exact states_thread quiet u
  | lower => exact Or.inr ⟨stays same (by simp [inside_append, holdEvent]), by simp [Loses]⟩
  | lowerBlock | resumeDown =>
      exact Or.inr ⟨stays (states_update (by simp [Unhanded]) u) (by simp [inside_append, holdEvent]), by simp [Loses]⟩
  | signal runs known popped =>
      rename_i c next t ring
      have made : p.Created (.condvar c) := known
      have quiet := unhanded_of_popped (wf.alive (Or.inl runs)) made popped (by simp) .runnable
      exact Or.inr ⟨stays (states_thread quiet u) (by simp), by simp [Loses]⟩
  | waitCond => exact Or.inr ⟨stays (states_update (by simp [Unhanded]) u) (by simp), by simp [Loses]⟩
  | start runs free =>
      refine Or.inr ⟨stays (states_update (by simp [Unhanded]) u) (fun present => ?_), by simp [Loses]⟩
      simp only [inside_append, List.foldl_cons, List.foldl_nil, holdEvent, Bool.and_eq_true] at present
      exact present.1
  | collect ended => exact Or.inr ⟨stays (states_thread (by simp [Unhanded]) u) (by simp), by simp [Loses]⟩
  | exit code runs worker =>
      refine Or.inr ⟨stays (states_thread (by simp [Unhanded]) u) (fun present => ?_), by simp [Loses]⟩
      simp only [inside_append, List.foldl_cons, List.foldl_nil, holdEvent, Bool.and_eq_true] at present
      exact present.1
  | exitProcess code runs main =>
      refine Or.inr ⟨stays (Or.inr (by simp [Unhanded])) (fun present => ?_), by simp [Loses]⟩
      rw [inside_exits] at present
      contradiction

/-- Only a release frees the lock of a mutex that exists. -/
theorem Micro.locked {p q : Proc} {events : List Event} {label : Label} (effect : Micro p label events q)
    {n : LockId} (known : n.val < p.nextMutexId) (taken : (p.mutexPool n).locked = true) :
    (∃ t, label = .release t n) ∨ (q.mutexPool n).locked = true := by
  cases effect with
  | createMutex blocking fresh ring valid =>
      have other : n ≠ _ := fun same => absurd known (by rw [same, fresh]; exact Nat.lt_irrefl _)
      exact Or.inr (by simpa [Proc.setMutex, other] using taken)
  | take runs known free =>
      rename_i t m
      by_cases same : n = m <;> exact Or.inr (by simp [Proc.setLocked, Proc.setMutex, same, taken])
  | release runs known unclaimed =>
      rename_i t m
      by_cases same : n = m
      · exact Or.inl ⟨t, by rw [same]⟩
      · exact Or.inr (by simpa [Proc.setLocked, Proc.setMutex, same] using taken)
  | wait runs known busy blocks pushed =>
      rename_i t m ring
      exact Or.inr ((setWaitQueue_locked p (.mutex m) ring n).trans taken)
  | handOver runs known blocks popped =>
      rename_i t m next ring
      exact Or.inr ((setWaitQueue_locked p (.mutex m) ring n).trans taken)
  | «raise» runs known free =>
      rename_i t s
      rw [(semaphoreRelease_frame p t s).2.2.1]
      exact Or.inr taken
  | raiseWake runs known owed popped =>
      rename_i t s next ring
      refine Or.inr ?_
      show ((semaphoreRelease p t s).mutexPool n).locked = true
      rw [(semaphoreRelease_frame p t s).2.2.1]
      exact taken
  | _ => exact Or.inr taken

/-- Mutexes are created and never removed. -/
theorem Micro.created {p q : Proc} {events : List Event} {label : Label} (effect : Micro p label events q) :
    p.nextMutexId ≤ q.nextMutexId := by
  cases effect with
  | createMutex => exact Nat.le_succ _
  | «raise» runs known free =>
      rename_i t s
      exact Nat.le_of_eq (semaphoreRelease_frame p t s).2.2.2.symm
  | raiseWake runs known owed popped =>
      rename_i t s next ring
      exact Nat.le_of_eq (semaphoreRelease_frame p t s).2.2.2.symm
  | _ => exact Nat.le_refl _

/-- A thread gains only a mutex that nobody else keeps. -/
theorem Owned.gained {p q : Proc} {trace events : List Event} {label : Label} (owned : Owned p trace)
    (fair : FairLabel p trace label) (effect : Micro p label events q) {m : LockId} {t : Tid}
    (gains : Gains label m t) :
    (∀ u, Owner p trace m u → u = t ∨ Loses label m u) ∧ (∀ u, Gains label m u → t = u) ∧
      (q.mutexPool m).locked = true ∧ m.val < p.nextMutexId := by
  rcases gains with rfl | rfl | ⟨giver, rfl⟩
  · cases effect with
    | take runs known free =>
        refine ⟨fun u owner => ?_, fun u gains => ?_, by simp [Proc.setLocked, Proc.setMutex], known⟩
        · have taken := owned.locked m u owner
          simp [free] at taken
        · simpa [Gains] using gains
  · cases effect with
    | leaveSpin idle ready polls free =>
        have taken := fair polls
        simp [free] at taken
  · cases effect with
    | handOver runs known blocks popped =>
        rename_i ring
        refine ⟨fun u owner => ?_, fun u gains => ?_, ?_, known⟩
        · rcases fair with held | waits
          · exact Or.inr (Or.inr ⟨t, by rw [owned.unique m u giver owner held]⟩)
          · exact Or.inl (owned.unique m u t owner waits)
        · simpa [Gains] using gains
        · apply (setWaitQueue_locked p (.mutex m) ring m).trans
          rcases fair with held | waits
          · exact owned.locked m giver held
          · exact owned.locked m t waits

/-- Every fair effect keeps the invariant. -/
theorem Owned.effect {p q : Proc} {trace events : List Event} {label : Label} (wf : p.Wf)
    (owned : Owned p trace) (fair : FairLabel p trace label) (effect : Micro p label events q) :
    Owned q (trace ++ events) := by
  constructor
  · intro m t u first second
    rcases effect.owner wf first with gains | ⟨old, kept⟩
    · obtain ⟨lost, single, _⟩ := owned.gained fair effect gains
      rcases effect.owner wf second with also | ⟨other, stays⟩
      · exact single u also
      · rcases lost u other with same | gone
        · exact same.symm
        · exact absurd gone stays
    · rcases effect.owner wf second with gains | ⟨other, _⟩
      · rcases (owned.gained fair effect gains).1 t old with same | gone
        · exact same
        · exact absurd gone kept
      · exact owned.unique m t u old other
  · intro m t owner
    rcases effect.owner wf owner with gains | ⟨old, kept⟩
    · exact (owned.gained fair effect gains).2.2.1
    · rcases effect.locked (owned.known m t old) (owned.locked m t old) with ⟨u, rfl⟩ | taken
      · rcases fair with held | free
        · refine absurd ?_ kept
          rw [owned.unique m t u old held]
          exact Or.inl rfl
        · have taken := owned.locked m t old
          simp [free] at taken
      · exact taken
  · intro m t owner
    rcases effect.owner wf owner with gains | ⟨old, _⟩
    · exact Nat.lt_of_lt_of_le (owned.gained fair effect gains).2.2.2 effect.created
    · exact Nat.lt_of_lt_of_le (owned.known m t old) effect.created

theorem Initial.owned {p : Proc} (initial : Initial p) : Owned p [] := by
  have none (m : LockId) (t : Tid) : ¬Owner p [] m t := by
    rintro (present | ⟨ready, handed⟩)
    · simp [inside] at present
    · by_cases main : t = 0
      · subst main
        simp [initial.conts] at handed
      · simp [initial.others t main] at ready
  exact ⟨fun m t u owner => absurd owner (none m t), fun m t owner => absurd owner (none m t),
    fun m t owner => absurd owner (none m t)⟩

/-- In runs where no spinning thread leaves its loop, each mutex excludes all threads but one. -/
theorem mutex_exclusive {p : Proc} {trace : List Event}
    (reached : Reaches step (fun p trace action => Disciplined p trace action ∧ SpinsOn p action)
      Initial p trace) : Exclusive p trace := by
  have owned : Owned p trace := by
    refine (run_invariant SafeLabel Owned (fun p initial => initial.owned) ?_ ?_ reached).2
    · exact fun p trace action q sofar label meets caused => safeLabel_of_caused meets.1 meets.2 caused
    · exact fun p trace label events q wf owned safe effect => owned.effect wf (safe.fair effect) effect
  intro m
  constructor
  · intro t u first second
    exact owned.unique m t u (Or.inl first) (Or.inl second)
  · intro t present
    exact owned.locked m t (Or.inl present)

/-- A blocked thread receives the mutex from the unlock and returns from its lock. -/
theorem mutex_exclusive_run : ∃ p trace,
    Reaches step (fun p trace action => Disciplined p trace action ∧ SpinsOn p action) Initial p trace ∧
      inside 1 0 trace = true ∧ Exclusive p trace := by
  obtain ⟨p, trace, reached, present⟩ := replay_witness step
    (fun p trace action => Disciplined p trace action ∧ SpinsOn p action) Initial
    [.schedule 0, .mutexCreate 1, .threadCreate, .mutexLock 0, .yield, .schedule 1, .mutexLock 0, .schedule 0,
      .mutexUnlock 0, .yield, .schedule 1]
    freshProc freshProc_initial (fun _ trace => inside 1 0 trace) (by decide +kernel)
  exact ⟨p, trace, reached, present, mutex_exclusive reached⟩

/-- A thread that leaves the spin loop is inside while the mutex counts as free. -/
theorem spin_exit_breaks {p after : Proc} {trace events : List Event} {t : Tid} {m : LockId}
    (idle : p.current = none) (polls : p.conts t = .spinning m) (free : (p.mutexPool m).locked = false)
    (stepped : step p (.schedule t) = some (after, events)) : ¬Exclusive after (trace ++ events) := by
  intro exclusive
  simp only [step, idle] at stepped
  split at stepped
  · have unlocked : ((p.setThread t .running).mutexPool m).locked = false := free
    simp only [resume, show (p.setThread t .running).conts t = .spinning m from polls, unlocked, Bool.false_eq_true,
      if_false, complete, mutexLockTail, Option.some.injEq, Prod.mk.injEq] at stepped
    obtain ⟨rfl, rfl⟩ := stepped
    have taken := (exclusive m).2 t (by simp [inside_append, holdEvent, Proc.setCont])
    have same : (p.mutexPool m).locked = true := taken
    simp [free] at same
  · contradiction

/-- Two threads return from the lock of one spinning mutex when a third had made them wait. -/
theorem spin_mutex_shared : ¬∀ p trace, Reaches step Disciplined Initial p trace → Exclusive p trace := by
  intro claim
  obtain ⟨p, trace, reached, both⟩ := replay_witness step Disciplined Initial
    [.schedule 0, .mutexCreate 0, .threadCreate, .threadCreate, .mutexLock 0, .yield, .schedule 1, .mutexLock 0,
      .schedule 0, .mutexUnlock 0, .yield, .schedule 1, .yield, .schedule 2, .mutexLock 0]
    freshProc freshProc_initial (fun _ trace => inside 1 0 trace && inside 2 0 trace) (by decide +kernel)
  simp only [Bool.and_eq_true] at both
  have same := (claim p trace reached 0).1 1 2 both.1 both.2
  contradiction

end BtbuOs.Sync
