import BtbuOs.Sync.Effects

namespace BtbuOs.Sync

open Machine

/-- One event changes the number of units that the thread's own operations give it. -/
def unitEvent (t : Tid) (s : LockId) (units : Int) : Event → Int
  | .acquired owner id => if owner = t ∧ id = s then units + 1 else units
  | .up owner id => if owner = t ∧ id = s then max 0 (units - 1) else units
  | .started owner => if owner = t then 0 else units
  | _ => units

/-- The units of a semaphore by the replay of the thread's operations. -/
def units (t : Tid) (s : LockId) (trace : List Event) : Int := trace.foldl (unitEvent t s) 0

/-- A thread is live from its creation to its exit. -/
def Live (p : Proc) (t : Tid) : Prop := p.threads t ≠ .unused ∧ p.threads t ≠ .exited

instance (p : Proc) (t : Tid) : Decidable (Live p t) := inferInstanceAs (Decidable (_ ∧ _))

/-- Both semaphore matrices agree with the replay and with the wait queues. -/
def Exact (p : Proc) (trace : List Event) : Prop :=
  ∀ t s, Live p t → p.semAllocation t s = units t s trace ∧
    (s.val < p.nextSemaphoreId →
      p.semRequest t s = if t ∈ (p.waitQueue (.semaphore s)).toList then 1 else 0)

/-- No thread returns from a wait in `semaphore_down`, and each new thread gets a row of zeros. -/
def CountsOnce (p : Proc) (action : Action) : Prop :=
  (∀ t s, action = .schedule t → p.conts t ≠ .inDown s) ∧
    ∀ t s, action = .threadCreate → freeSlot p = some t → p.semAllocation t s = 0

instance (p : Proc) (action : Action) : Decidable (CountsOnce p action) :=
  inferInstanceAs (Decidable ((∀ _ _, _ → _) ∧ ∀ _ _, _ → _ → _))

theorem units_append (t : Tid) (s : LockId) (trace events : List Event) :
    units t s (trace ++ events) = events.foldl (unitEvent t s) (units t s trace) :=
  List.foldl_append

theorem units_nonneg (t : Tid) (s : LockId) (trace : List Event) : 0 ≤ units t s trace := by
  have fold (start : Int) (positive : 0 ≤ start) : 0 ≤ trace.foldl (unitEvent t s) start := by
    induction trace generalizing start with
    | nil => exact positive
    | cons event rest ih =>
        apply ih
        cases event <;> simp only [unitEvent] <;> (try split) <;> omega
  exact fold 0 (Int.le_refl 0)

/-- The thread sleeps in `semaphore_down`. -/
def Downing (state : ThreadState) (cont : Cont) (s : LockId) : Prop := state = .sleeping ∧ cont = .inDown s

instance (state : ThreadState) (cont : Cont) (s : LockId) : Decidable (Downing state cont s) :=
  inferInstanceAs (Decidable (_ ∧ _))

/-- The invariant behind exact matrices. -/
structure Counted (p : Proc) (trace : List Event) : Prop where
  allocation : ∀ t s, Live p t → p.semAllocation t s = units t s trace
  request : ∀ t s, p.semRequest t s = if Downing (p.threads t) (p.conts t) s then 1 else 0

/-- An effect outside the semaphores keeps the invariant. -/
theorem Counted.quiet {p q : Proc} {trace after : List Event} (counted : Counted p trace)
    (alive : ∀ t, Live q t → Live p t) (allocation : q.semAllocation = p.semAllocation)
    (replayed : ∀ t s, units t s after = units t s trace) (request : q.semRequest = p.semRequest)
    (asleep : ∀ t s, Downing (q.threads t) (q.conts t) s ↔ Downing (p.threads t) (p.conts t) s) :
    Counted q after := by
  constructor
  · intro t s live
    rw [allocation, replayed]
    exact counted.allocation t s (alive t live)
  · intro t s
    rw [request, counted.request]
    simp only [asleep]

/-- The labels that the condition admits. -/
def OnceLabel (p : Proc) : Label → Prop
  | .resumeDown t s => p.conts t ≠ .inDown s
  | .start t => ∀ s, p.semAllocation t s = 0
  | _ => True

theorem onceLabel_of_caused {p q : Proc} {trace sofar : List Event} {action : Action} {label : Label}
    (once : CountsOnce p action) (caused : Caused p trace action q sofar label) : OnceLabel q label := by
  cases label with
  | resumeDown t s =>
      obtain ⟨rfl, scheduled⟩ := caused
      exact once.1 t s scheduled
  | start t =>
      obtain ⟨rfl, created, found⟩ := caused
      exact fun s => once.2 t s created found
  | _ => trivial

section Updates

variable {p : Proc} {t : Tid} {state : ThreadState}

/-- A change at one live thread keeps the others' liveness. -/
theorem live_update (live : Live p t) (s : Tid)
    (after : Function.update p.threads t state s ≠ .unused ∧ Function.update p.threads t state s ≠ .exited) :
    Live p s := by
  by_cases same : s = t
  · subst same
    exact live
  · simpa [Live, same] using after

/-- A change at one thread that neither before nor after sleeps in `semaphore_down`. -/
theorem downing_update {cont : Cont} (before : ∀ s, ¬Downing (p.threads t) (p.conts t) s)
    (after : ∀ s, ¬Downing state cont s) (u : Tid) (s : LockId) :
    Downing (Function.update p.threads t state u) (Function.update p.conts t cont u) s ↔
      Downing (p.threads u) (p.conts u) s := by
  by_cases same : u = t
  · subst same
    simp [before s, after s]
  · simp [same]

theorem downing_thread (before : ∀ s, ¬Downing (p.threads t) (p.conts t) s)
    (after : ∀ s, ¬Downing state (p.conts t) s) (u : Tid) (s : LockId) :
    Downing (Function.update p.threads t state u) (p.conts u) s ↔ Downing (p.threads u) (p.conts u) s := by
  by_cases same : u = t
  · subst same
    simp [before s, after s]
  · simp [same]

/-- The running thread is live and not asleep. -/
theorem running_facts (wf : p.view.Wf) (runs : p.current = some t) :
    Live p t ∧ ∀ s, ¬Downing (p.threads t) (p.conts t) s := by
  have running : p.threads t = .running := (wf.running t).mp runs
  simp [Live, Downing, running]

/-- A RUNNABLE thread is live and not asleep. -/
theorem ready_facts (ready : p.threads t = .runnable) :
    Live p t ∧ ∀ s, ¬Downing (p.threads t) (p.conts t) s := by
  simp [Live, Downing, ready]

/-- The head of a wait queue is live and sleeps in the context of that queue. -/
theorem popped_facts (wf : p.view.Wf) {w : WaitId} (made : p.Created w) {q : Queue Tid}
    (popped : popQueue (p.waitQueue w) = (some t, q)) :
    Live p t ∧ p.threads t = .sleeping ∧ (p.conts t).waitId = some w := by
  obtain ⟨_, content, _⟩ := Queue.popQueue_some (wf.rings w made) popped
  have waits := wf.queued w t made (by rw [content]; exact List.mem_cons_self)
  have asleep : p.threads t = .sleeping := waits.1
  exact ⟨by simp [Live, asleep], waits⟩

end Updates

/-- The detection leaves the request entry of a running thread at zero. -/
theorem Counted.clear {p : Proc} {trace : List Event} (counted : Counted p trace) {t : Tid}
    (awake : ∀ s, ¬Downing (p.threads t) (p.conts t) s) (s : LockId) : p.semRequest.set t s 0 = p.semRequest := by
  funext u r
  by_cases same : u = t ∧ r = s
  · obtain ⟨rfl, rfl⟩ := same
    simp [counted.request u r, awake r]
  · exact Matrix.set_of_ne _ _ same

theorem semaphoreRelease_threads (p : Proc) (t : Tid) (s : LockId) :
    (semaphoreRelease p t s).threads = p.threads ∧ (semaphoreRelease p t s).conts = p.conts ∧
      (semaphoreRelease p t s).semRequest = p.semRequest := by
  unfold semaphoreRelease
  split <;> exact ⟨rfl, rfl, rfl⟩

theorem semaphoreRelease_allocation (p : Proc) (t : Tid) (s : LockId) (u : Tid) (r : LockId) :
    (semaphoreRelease p t s).semAllocation u r =
      if u = t ∧ r = s ∧ p.semAllocation t s > 0 then p.semAllocation t s - 1 else p.semAllocation u r := by
  unfold semaphoreRelease
  by_cases positive : p.semAllocation t s > 0
  · by_cases same : u = t ∧ r = s <;> simp [positive, same, Proc.setCount, Proc.setSemaphore, Matrix.set]
  · simp [positive, Proc.setCount, Proc.setSemaphore]

/-- The caller of `semaphore_up` gives back one unit, as in its replay. -/
theorem Counted.release {p : Proc} {trace : List Event} (counted : Counted p trace) {t : Tid} (s : LockId)
    (running : Live p t) {u : Tid} (live : Live p u) (r : LockId) :
    (semaphoreRelease p t s).semAllocation u r = unitEvent u r (units u r trace) (.up t s) := by
  rw [semaphoreRelease_allocation, counted.allocation t s running, counted.allocation u r live]
  have positive := units_nonneg u r trace
  by_cases same : u = t ∧ r = s
  · obtain ⟨rfl, rfl⟩ := same
    simp only [unitEvent, true_and, and_self, if_true]
    split <;> omega
  · have other : ¬(t = u ∧ s = r) := fun ⟨first, second⟩ => same ⟨first.symm, second.symm⟩
    have never : ¬(u = t ∧ r = s ∧ units t s trace > 0) := fun ⟨first, second, _⟩ => same ⟨first, second⟩
    simp only [unitEvent, other, never, if_false]

/-- A matrix entry that grows by one replays an acquired unit. -/
theorem counted_set {matrix : Matrix} (t : Tid) (s : LockId) (u : Tid) (r : LockId) (value : Int)
    (grown : value = matrix t s + 1) :
    (matrix.set t s value) u r = unitEvent u r (matrix u r) (.acquired t s) := by
  subst grown
  by_cases same : u = t ∧ r = s
  · obtain ⟨rfl, rfl⟩ := same
    simp [unitEvent]
  · have other : ¬(t = u ∧ s = r) := fun ⟨first, second⟩ => same ⟨first.symm, second.symm⟩
    simp only [Matrix.set_of_ne _ _ same, unitEvent, other, if_false]

/-- Every admitted effect keeps the invariant while the process lives. -/
theorem Counted.effect {p q : Proc} {trace events : List Event} {label : Label} (wf : p.view.Wf)
    (counted : Counted p trace) (once : OnceLabel p label) (effect : Micro p label events q) :
    q.Dead ∨ Counted q (trace ++ events) := by
  have alive {t : Tid} (runs : p.current = some t) := running_facts wf runs
  cases effect with
  | report t value => exact Or.inr (counted.quiet (fun _ live => live) rfl (by simp [units_append, unitEvent]) rfl (by simp))
  | detect | clearMutexRequest | createMutex | createSemaphore | createCondvar =>
      exact Or.inr (counted.quiet (fun _ live => live) rfl (by simp) rfl (fun _ _ => Iff.rfl))
  | preempt runs =>
      exact Or.inr (counted.quiet (live_update (alive runs).1) rfl (by simp) rfl
        (downing_update (alive runs).2 (by simp [Downing])))
  | dispatch idle ready other =>
      exact Or.inr (counted.quiet (live_update (ready_facts ready).1) rfl (by simp) rfl
        (downing_update (ready_facts ready).2 (by simp [Downing])))
  | clearSemRequest runs =>
      exact Or.inr (counted.quiet (fun _ live => live) rfl (by simp) (counted.clear (alive runs).2 _) (fun _ _ => Iff.rfl))
  | take runs known free =>
      exact Or.inr (counted.quiet (fun _ live => live) rfl (by simp [units_append, unitEvent]) rfl (fun _ _ => Iff.rfl))
  | poll runs known busy spins =>
      exact Or.inr (counted.quiet (live_update (alive runs).1) rfl (by simp) rfl
        (downing_update (alive runs).2 (by simp [Downing])))
  | leaveSpin idle ready polls free =>
      exact Or.inr (counted.quiet (live_update (ready_facts ready).1) rfl (by simp [units_append, unitEvent]) rfl
        (downing_update (ready_facts ready).2 (by simp [Downing])))
  | wait runs known busy blocks pushed =>
      exact Or.inr (counted.quiet (live_update (alive runs).1) rfl (by simp) rfl
        (downing_update (alive runs).2 (by simp [Downing])))
  | resumeLock idle ready handed =>
      exact Or.inr (counted.quiet (live_update (ready_facts ready).1) rfl (by simp [units_append, unitEvent]) rfl
        (downing_update (ready_facts ready).2 (by simp [Downing])))
  | release runs known unclaimed =>
      exact Or.inr (counted.quiet (fun _ live => live) rfl (by simp [units_append, unitEvent]) rfl (fun _ _ => Iff.rfl))
  | handOver runs known blocks popped =>
      rename_i t m next ring
      have made : p.Created (.mutex m) := ⟨known, blocks⟩
      have facts := popped_facts wf made popped
      have before (s : LockId) : ¬Downing (p.threads next) (p.conts next) s := by
        rintro ⟨_, down⟩
        simp [down, Cont.waitId] at facts
      exact Or.inr (counted.quiet (live_update facts.1) rfl (by simp [units_append, unitEvent]) rfl
        (downing_thread before (by simp [Downing])))
  | «raise» runs known free =>
      rename_i t s
      obtain ⟨threads, conts, request⟩ := semaphoreRelease_threads p t s
      refine Or.inr ⟨fun u r live => ?_, fun u r => ?_⟩
      · have before : Live p u := by simpa only [Live, threads] using live
        rw [counted.release s (alive runs).1 before r, units_append]
        rfl
      · rw [threads, conts, request]
        exact counted.request u r
  | raiseWake runs known owed popped =>
      rename_i t s next ring
      obtain ⟨threads, conts, request⟩ := semaphoreRelease_threads p t s
      have made : p.Created (.semaphore s) := known
      obtain ⟨woken, asleep, waits⟩ := popped_facts wf made popped
      have down : p.conts next = .inDown s := by
        cases saved : p.conts next <;> simp_all [Cont.waitId]
      refine Or.inr ⟨fun u r live => ?_, fun u r => ?_⟩
      · have before : Live p u := by
          by_cases same : u = next
          · exact same ▸ woken
          · simpa [Live, Proc.setThread, Proc.setWaitQueue, Proc.setSemaphore, same, threads] using live
        show ((semaphoreRelease p t s).semAllocation.set next s _) u r = _
        rw [units_append, List.foldl_cons, List.foldl_cons, List.foldl_nil,
          ← counted.release s (alive runs).1 before r]
        exact counted_set next s u r _ rfl
      · show (p.semRequest.set next s 0) u r =
          if Downing (Function.update (semaphoreRelease p t s).threads next .runnable u)
            ((semaphoreRelease p t s).conts u) r then 1 else 0
        rw [threads, conts]
        by_cases same : u = next
        · subst same
          have awake : ¬Downing (Function.update p.threads u .runnable u) (p.conts u) r := by simp [Downing]
          rw [if_neg awake]
          by_cases target : r = s
          · subst target
            exact Matrix.set_self ..
          · have other : ¬Downing (p.threads u) (p.conts u) r := by
              rintro ⟨_, elsewhere⟩
              rw [down] at elsewhere
              exact target (by injection elsewhere with equal; exact equal.symm)
            rw [Matrix.set_of_ne _ _ (fun both => target both.2), counted.request, if_neg other]
        · rw [Matrix.set_of_ne _ _ (fun both => same both.1), counted.request, Function.update_of_ne same]
  | lower runs known free =>
      rename_i t s
      refine Or.inr ⟨fun u r live => ?_, counted.request⟩
      show (p.semAllocation.set t s _) u r = _
      rw [units_append, List.foldl_cons, List.foldl_cons, List.foldl_cons, List.foldl_nil]
      show _ = unitEvent u r (units u r trace) (.acquired t s)
      rw [← counted.allocation u r live]
      exact counted_set t s u r _ rfl
  | lowerBlock runs known spent pushed =>
      rename_i t s ring
      have awake := (alive runs).2
      refine Or.inr ⟨fun u r live => ?_, fun u r => ?_⟩
      · rw [units_append]
        exact counted.allocation u r (live_update (alive runs).1 u live)
      · show (p.semRequest.set t s 1) u r =
          if Downing (Function.update p.threads t .sleeping u) (Function.update p.conts t (.inDown s) u) r then 1 else 0
        by_cases same : u = t
        · subst same
          by_cases target : r = s
          · simp [target, Downing]
          · have other : ¬(u = u ∧ r = s) := fun both => target both.2
            rw [Matrix.set_of_ne _ _ other, counted.request, if_neg (awake r)]
            simp [Downing, Ne.symm target]
        · rw [Matrix.set_of_ne _ _ (fun both => same both.1), counted.request, Function.update_of_ne same,
            Function.update_of_ne same]
  | resumeDown idle ready waits => exact absurd waits once
  | signal runs known popped =>
      rename_i c next t ring
      have made : p.Created (.condvar c) := known
      have facts := popped_facts wf made popped
      have before (s : LockId) : ¬Downing (p.threads next) (p.conts next) s := by
        rintro ⟨_, down⟩
        simp [down, Cont.waitId] at facts
      exact Or.inr (counted.quiet (live_update facts.1) rfl (by simp) rfl (downing_thread before (by simp [Downing])))
  | waitCond runs made known pushed =>
      exact Or.inr (counted.quiet (live_update (alive runs).1) rfl (by simp) rfl
        (downing_update (alive runs).2 (by simp [Downing])))
  | start runs free =>
      rename_i r t
      refine Or.inr ⟨fun u s live => ?_, fun u s => ?_⟩
      · rw [units_append, List.foldl_cons, List.foldl_nil]
        show p.semAllocation u s = unitEvent u s (units u s trace) (.started t)
        by_cases same : u = t
        · subst same
          simpa [unitEvent] using once s
        · have before : Live p u := by simpa [Live, Proc.setThread, Proc.setCont, same] using live
          simpa [unitEvent, Ne.symm same] using counted.allocation u s before
      · show p.semRequest u s = if Downing (Function.update p.threads t .runnable u)
          (Function.update p.conts t .user u) s then 1 else 0
        rw [counted.request]
        have before (r : LockId) : ¬Downing (p.threads t) (p.conts t) r := by simp [Downing, free]
        simp only [downing_update before (show ∀ r, ¬Downing .runnable .user r by simp [Downing]) u s]
  | collect ended =>
      rename_i t
      refine Or.inr (counted.quiet (fun u live => ?_) rfl (by simp) rfl
        (downing_thread (by simp [Downing, ended]) (by simp [Downing])))
      by_cases same : u = t
      · simp [Live, Proc.setThread, same] at live
      · simpa [Live, Proc.setThread, same] using live
  | exit code runs worker =>
      exact Or.inr (counted.quiet (live_update (alive runs).1) rfl (by simp [units_append, unitEvent]) rfl
        (downing_thread (alive runs).2 (by simp [Downing])))
  | exitProcess code runs main => exact Or.inl ⟨rfl, fun _ => rfl⟩

theorem Initial.counted {p : Proc} (initial : Initial p) : Counted p [] := by
  constructor
  · intro t s _
    rw [initial.semAllocation]
    rfl
  · intro t s
    have awake : p.threads t ≠ .sleeping := by
      by_cases main : t = 0
      · simp [main, initial.main]
      · simp [initial.others t main]
    rw [initial.semRequest, if_neg fun down => awake down.1]

/-- In runs that count every unit once, the matrices match the replay and the queues. -/
theorem semaphore_matrices_exact {p : Proc} {trace : List Event}
    (reached : Reaches step (fun p _ action => CountsOnce p action) Initial p trace) : Exact p trace := by
  have invariant := run_invariant_alive (fun p _ label => OnceLabel p label) Counted (fun p initial => initial.counted)
    (fun p trace action q sofar label once caused => onceLabel_of_caused once caused)
    (fun p trace label events q wf counted once effect => counted.effect wf once effect) reached
  rcases invariant with dead | ⟨wf, counted⟩
  · intro t s live
    exact absurd (dead.2 t) live.1
  · intro t s live
    refine ⟨counted.allocation t s live, fun made => ?_⟩
    have created : p.view.created (.semaphore s) := made
    have waiting : Downing (p.threads t) (p.conts t) s ↔ t ∈ (p.waitQueue (.semaphore s)).toList := by
      constructor
      · rintro ⟨asleep, down⟩
        obtain ⟨w, waits, _, member⟩ := wf.asleep t asleep
        rw [show p.view.conts t = .inDown s from down] at waits
        obtain rfl := Option.some.inj waits
        exact member
      · intro member
        obtain ⟨asleep, waits⟩ := wf.queued (.semaphore s) t created member
        have saved : (p.conts t).waitId = some (.semaphore s) := waits
        refine ⟨asleep, ?_⟩
        cases cont : p.conts t <;> simp_all [Cont.waitId]
    rw [counted.request t s]
    simp only [waiting]

/-- A thread waits for a unit that another thread holds. -/
theorem semaphore_matrices_exact_run : ∃ p trace,
    Reaches step (fun p _ action => CountsOnce p action) Initial p trace ∧
      p.semAllocation 0 0 = 1 ∧ p.semRequest 1 0 = 1 ∧ Exact p trace := by
  obtain ⟨p, trace, reached, waits⟩ := replay_witness step (fun p _ action => CountsOnce p action) Initial
    [.schedule 0, .semaphoreCreate 1, .threadCreate, .semaphoreDown 0, .yield, .schedule 1, .semaphoreDown 0]
    freshProc freshProc_initial (fun p _ => decide (p.semAllocation 0 0 = 1 ∧ p.semRequest 1 0 = 1))
    (by decide +kernel)
  have both := of_decide_eq_true waits
  exact ⟨p, trace, reached, both.1, both.2, semaphore_matrices_exact reached⟩

/-- A step that does not count once makes an exact state inexact. -/
theorem counts_twice_breaks {p after : Proc} {trace events : List Event} {action : Action}
    (before : Exact p trace) (twice : ¬CountsOnce p action) (stepped : step p action = some (after, events)) :
    ¬Exact after (trace ++ events) := by
  intro also
  rw [CountsOnce, not_and_or] at twice
  rcases twice with resumed | reused
  · push Not at resumed
    obtain ⟨t, s, rfl, down⟩ := resumed
    cases idle : p.current with
    | some r => simp [step, sysCall, idle] at stepped
    | none =>
        simp only [step, idle] at stepped
        split at stepped
        · rename_i ready
          simp only [resume, show (p.setThread t .running).conts t = .inDown s from down, complete, semaphoreDownTail,
            Option.some.injEq, Prod.mk.injEq] at stepped
          obtain ⟨rfl, rfl⟩ := stepped
          have counted := (before t s (ready_facts ready).1).1
          have again : (p.semAllocation.set t s (p.semAllocation t s + 1)) t s = units t s (trace ++ _) :=
            (also t s (by simp [Live, Proc.setThread, Proc.setCont])).1
          rw [Matrix.set_self, counted] at again
          simp [units_append, unitEvent, Proc.setCont] at again <;> omega
        · contradiction
  · push Not at reused
    obtain ⟨t, s, rfl, found, stale⟩ := reused
    cases runs : p.current with
    | none => simp [step, runs] at stepped
    | some r =>
        simp only [step, runs, sysCall, sysThreadCreate, found, Option.some.injEq, Prod.mk.injEq] at stepped
        obtain ⟨rfl, rfl⟩ := stepped
        have again : p.semAllocation t s = units t s (trace ++ [.started t, .returned r t.val]) :=
          (also t s (by simp [Live, Proc.setThread, Proc.setCont])).1
        simp [units_append, unitEvent, stale] at again

/-- The woken thread counts the unit that the waker already counted for it. -/
theorem semaphore_unit_counted_twice : ¬∀ p trace,
    Reaches step (fun _ _ _ => True) Initial p trace → Exact p trace := by
  intro claim
  obtain ⟨p, trace, reached, wrong⟩ := replay_witness step (fun _ _ _ => True) Initial
    [.schedule 0, .semaphoreCreate 0, .threadCreate, .yield, .schedule 1, .semaphoreDown 0, .schedule 0,
      .semaphoreUp 0, .yield, .schedule 1]
    freshProc freshProc_initial
    (fun p trace => decide (Live p 1 ∧ p.semAllocation 1 0 = 2 ∧ units 1 0 trace = 1)) (by decide +kernel)
  obtain ⟨live, allocated, replayed⟩ := of_decide_eq_true wrong
  have equal := (claim p trace reached 1 0 live).1
  rw [allocated, replayed] at equal
  contradiction

end BtbuOs.Sync
