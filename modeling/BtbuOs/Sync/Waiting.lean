import BtbuOs.Sync.Step
import Mathlib.Data.List.Nodup

namespace BtbuOs.Sync

/-- The view keeps the threads and the initialised wait queues of a process. -/
structure View where
  current : Option Tid
  threads : Tid → ThreadState
  conts : Tid → Cont
  known : LockId → Prop
  created : WaitId → Prop
  queues : WaitId → Queue Tid

/-- Only a blocking mutex initialises its wait queue. -/
def Proc.Created (p : Proc) : WaitId → Prop
  | .mutex id => id.val < p.nextMutexId ∧ (p.mutexPool id).blocking = true
  | .semaphore id => id.val < p.nextSemaphoreId
  | .condvar id => id.val < p.nextCondvarId

def Proc.view (p : Proc) : View where
  current := p.current
  threads := p.threads
  conts := p.conts
  known id := id.val < p.nextMutexId
  created := p.Created
  queues := p.waitQueue

namespace View

/-- The identifiers in a saved context name primitives that exist. -/
def Names (v : View) : Cont → Prop
  | .user => True
  | .spinning m => v.known m
  | .inLock m => v.created (.mutex m)
  | .inDown s => v.created (.semaphore s)
  | .inWait c m => v.created (.condvar c) ∧ v.known m

/-- A thread sleeps exactly when it is in the wait queue that its saved context names. -/
structure Wf (v : View) : Prop where
  running : ∀ t, v.current = some t ↔ v.threads t = .running
  inUser : ∀ t, v.current = some t → v.conts t = .user
  known : ∀ id, v.created (.mutex id) → v.known id
  rings : ∀ w, v.created w → (v.queues w).Valid
  nodup : ∀ w, v.created w → (v.queues w).toList.Nodup
  queued : ∀ w t, v.created w → t ∈ (v.queues w).toList →
    v.threads t = .sleeping ∧ (v.conts t).waitId = some w
  asleep : ∀ t, v.threads t = .sleeping →
    ∃ w, (v.conts t).waitId = some w ∧ v.created w ∧ t ∈ (v.queues w).toList
  named : ∀ t, v.threads t = .sleeping ∨ v.threads t = .runnable → v.Names (v.conts t)

def setThread (v : View) (t : Tid) (state : ThreadState) : View :=
  { v with threads := Function.update v.threads t state }

def setQueue (v : View) (w : WaitId) (q : Queue Tid) : View :=
  { v with queues := Function.update v.queues w q }

/-- The running thread gives up the processor in the given state and context. -/
def leave (v : View) (t : Tid) (state : ThreadState) (cont : Cont) : View :=
  { v with
    current := none
    threads := Function.update v.threads t state
    conts := Function.update v.conts t cont }

/-- The scheduler switches to a thread, which continues in user context. -/
def enter (v : View) (t : Tid) : View :=
  { v with
    current := some t
    threads := Function.update v.threads t .running
    conts := Function.update v.conts t .user }

/-- A thread outside the queues may take any state but SLEEPING. -/
theorem Wf.change {v : View} (wf : v.Wf) {t : Tid} (awake : v.threads t ≠ .sleeping)
    {current : Option Tid} {state : ThreadState} {cont : Cont} (stays : state ≠ .sleeping)
    (running : ∀ s, current = some s ↔ Function.update v.threads t state s = .running)
    (inUser : ∀ s, current = some s → Function.update v.conts t cont s = .user)
    (names : state = .runnable → v.Names cont) :
    { v with
      current
      threads := Function.update v.threads t state
      conts := Function.update v.conts t cont : View }.Wf where
  running := running
  inUser := inUser
  known := wf.known
  rings := wf.rings
  nodup := wf.nodup
  queued w s made member := by
    have old := wf.queued w s made member
    have other : s ≠ t := by
      rintro rfl
      exact awake old.1
    simpa [other] using old
  asleep s sleeping := by
    by_cases same : s = t
    · simp [same, stays] at sleeping
    · simp only [Function.update_of_ne same] at sleeping ⊢
      exact wf.asleep s sleeping
  named s state := by
    by_cases same : s = t
    · subst same
      simp only [Function.update_self, stays, false_or] at state ⊢
      exact names state
    · simp only [Function.update_of_ne same] at state ⊢
      exact wf.named s state

/-- No other thread runs beside the current one. -/
theorem Wf.alone {v : View} (wf : v.Wf) {t : Tid} (runs : v.current = some t) {s : Tid}
    (other : s ≠ t) : v.threads s ≠ .running := by
  intro also
  have := (wf.running s).mpr also
  rw [runs, Option.some.injEq] at this
  exact other this.symm

/-- A thread that gives up the processor leaves no thread running. -/
theorem Wf.stopped {v : View} (wf : v.Wf) {t : Tid} (runs : v.current = some t) {state : ThreadState}
    (stays : state ≠ .running) (s : Tid) :
    (none : Option Tid) = some s ↔ Function.update v.threads t state s = .running := by
  by_cases same : s = t
  · simp [same, stays]
  · simpa [same] using wf.alone runs same

theorem Wf.current_awake {v : View} (wf : v.Wf) {t : Tid} (runs : v.current = some t) :
    v.threads t ≠ .sleeping := by
  rw [(wf.running t).mp runs]
  simp

/-- A yield keeps the queues. -/
theorem Wf.yield {v : View} (wf : v.Wf) {t : Tid} (runs : v.current = some t) {cont : Cont}
    (names : v.Names cont) : (v.leave t .runnable cont).Wf :=
  wf.change (wf.current_awake runs) (by simp) (wf.stopped runs (by simp)) (by simp) fun _ => names

/-- A blocked thread is appended to its queue. -/
theorem Wf.block {v : View} (wf : v.Wf) {t : Tid} (runs : v.current = some t) {w : WaitId} {cont : Cont}
    (waits : cont.waitId = some w) (names : v.Names cont) (made : v.created w) {q : Queue Tid}
    (pushed : pushQueue (v.queues w) t = .ok q) : ((v.setQueue w q).leave t .sleeping cont).Wf := by
  have awake : v.threads t = .running := (wf.running t).mp runs
  obtain ⟨valid, content, _⟩ := Queue.pushQueue_ok (wf.rings w made) pushed
  have absent (u : WaitId) (created : v.created u) : t ∉ (v.queues u).toList := by
    intro member
    have := (wf.queued u t created member).1
    simp_all
  refine ⟨?_, ?_, wf.known, ?_, ?_, ?_, ?_, ?_⟩
  · exact wf.stopped runs (by simp)
  · intro s present
    simp [leave] at present
  · intro u created
    by_cases same : u = w
    · subst same; simpa [leave, setQueue] using valid
    · simpa [leave, setQueue, same] using wf.rings u created
  · intro u created
    by_cases same : u = w
    · subst same
      simp only [leave, setQueue, Function.update_self, content]
      rw [List.nodup_append]
      refine ⟨wf.nodup u made, List.nodup_singleton t, ?_⟩
      intro a inside b single equal
      rw [List.mem_singleton] at single
      subst equal single
      exact absent u made inside
    · simpa [leave, setQueue, same] using wf.nodup u created
  · intro u s created member
    by_cases same : u = w
    · subst same
      simp only [leave, setQueue, Function.update_self, content, List.mem_append,
        List.mem_singleton] at member ⊢
      rcases member with old | rfl
      · have other : s ≠ t := by rintro rfl; exact absent u made old
        simpa [other] using wf.queued u s created old
      · simpa using waits
    · simp only [leave, setQueue, Function.update_of_ne same] at member ⊢
      have other : s ≠ t := by rintro rfl; exact absent u created member
      simpa [other] using wf.queued u s created member
  · intro s sleeping
    by_cases same : s = t
    · subst same
      exact ⟨w, by simpa [leave] using waits, made, by simp [leave, setQueue, content]⟩
    · simp only [leave, setQueue, Function.update_of_ne same] at sleeping ⊢
      obtain ⟨u, id, created, member⟩ := wf.asleep s sleeping
      refine ⟨u, id, created, ?_⟩
      by_cases target : u = w
      · subst target; simp [content, member]
      · simpa [target] using member
  · intro s state
    by_cases same : s = t
    · subst same
      simpa [leave, setQueue, Names] using names
    · simp only [leave, setQueue, Function.update_of_ne same] at state ⊢
      exact wf.named s state

/-- A woken thread leaves the head of its queue. -/
theorem Wf.wake {v : View} (wf : v.Wf) {w : WaitId} (made : v.created w) {t : Tid} {q : Queue Tid}
    (popped : popQueue (v.queues w) = (some t, q)) : ((v.setQueue w q).setThread t .runnable).Wf := by
  obtain ⟨valid, content, _⟩ := Queue.popQueue_some (wf.rings w made) popped
  have unique := wf.nodup w made
  rw [content, List.nodup_cons] at unique
  obtain ⟨asleep, waits⟩ := wf.queued w t made (by simp [content])
  refine ⟨?_, wf.inUser, wf.known, ?_, ?_, ?_, ?_, ?_⟩
  · intro s
    have := wf.running s
    by_cases same : s = t <;> simp_all [setThread, setQueue]
  · intro u created
    by_cases same : u = w
    · subst same; simpa [setThread, setQueue] using valid
    · simpa [setThread, setQueue, same] using wf.rings u created
  · intro u created
    by_cases same : u = w
    · subst same; simpa [setThread, setQueue] using unique.2
    · simpa [setThread, setQueue, same] using wf.nodup u created
  · intro u s created member
    by_cases same : u = w
    · subst same
      simp only [setThread, setQueue, Function.update_self] at member ⊢
      have other : s ≠ t := by rintro rfl; exact unique.1 member
      simpa [other] using wf.queued u s created (by simp [content, member])
    · simp only [setThread, setQueue, Function.update_of_ne same] at member ⊢
      have old := wf.queued u s created member
      have other : s ≠ t := by
        rintro rfl
        rw [waits] at old
        exact same (Option.some.inj old.2).symm
      simpa [other] using old
  · intro s sleeping
    by_cases same : s = t
    · simp [setThread, same] at sleeping
    · simp only [setThread, setQueue, Function.update_of_ne same] at sleeping ⊢
      obtain ⟨u, id, created, member⟩ := wf.asleep s sleeping
      refine ⟨u, id, created, ?_⟩
      by_cases target : u = w
      · subst target
        rw [content] at member
        simpa [same] using member
      · simpa [target] using member
  · intro s state
    by_cases same : s = t
    · subst same
      exact wf.named s (Or.inl asleep)
    · simp only [setThread, setQueue, Function.update_of_ne same] at state ⊢
      exact wf.named s state

/-- A scheduled thread was awake, so no queue holds it. -/
theorem Wf.enter {v : View} (wf : v.Wf) (idle : v.current = none) {t : Tid}
    (ready : v.threads t = .runnable) : (v.enter t).Wf := by
  refine wf.change (by simp [ready]) (by simp) ?_ ?_ (by simp)
  · intro s
    have := wf.running s
    by_cases same : s = t <;> simp_all [eq_comm]
  · intro s present
    rw [Option.some.injEq] at present
    simp [present]

/-- A thread that neither sleeps nor runs may change to another such state. -/
theorem Wf.reset {v : View} (wf : v.Wf) {t : Tid} (idle : v.threads t = .unused ∨ v.threads t = .exited)
    {state : ThreadState} {cont : Cont} (awake : state ≠ .sleeping) (stopped : state ≠ .running)
    (names : state = .runnable → v.Names cont) :
    { v.setThread t state with conts := Function.update v.conts t cont }.Wf := by
  have apart {s : Tid} (present : v.current = some s) : s ≠ t := by
    rintro rfl
    have runs := (wf.running s).mp present
    rcases idle with idle | idle <;> simp [idle] at runs
  refine wf.change (by rcases idle with idle | idle <;> simp [idle]) awake ?_ ?_ names
  · intro s
    have := wf.running s
    change v.current = some s ↔ _
    by_cases same : s = t
    · subst same
      rcases idle with idle | idle <;> simp_all
    · simpa [same] using this
  · intro s present
    simpa [apart present] using wf.inUser s present

/-- The exit of the running thread leaves every queue alone. -/
theorem Wf.exit {v : View} (wf : v.Wf) {t : Tid} (runs : v.current = some t) :
    { v.setThread t .exited with current := none }.Wf := by
  have unchanged : Function.update v.conts t (v.conts t) = v.conts := Function.update_eq_self t v.conts
  have changed : View.Wf { v with
      current := none
      threads := Function.update v.threads t .exited
      conts := Function.update v.conts t (v.conts t) } :=
    wf.change (wf.current_awake runs) (by simp) (wf.stopped runs (by simp)) (by simp) (by simp)
  rwa [unchanged] at changed

/-- A new primitive starts with an empty queue. -/
theorem Wf.create {v : View} (wf : v.Wf) {w : WaitId} (fresh : ¬v.created w) {q : Queue Tid} {made : Prop}
    (ring : made → q.Valid ∧ q.toList = []) {known : LockId → Prop} {created : WaitId → Prop}
    (grows : ∀ id, v.known id → known id) (covered : ∀ id, created (.mutex id) → known id)
    (enlarged : ∀ u, created u ↔ v.created u ∨ u = w ∧ made) :
    { v with known, created, queues := Function.update v.queues w q : View }.Wf := by
  have old {u : WaitId} (existing : v.created u) : u ≠ w := by
    rintro rfl
    exact fresh existing
  refine ⟨wf.running, wf.inUser, covered, ?_, ?_, ?_, ?_, ?_⟩
  · intro u present
    rcases (enlarged u).mp present with existing | ⟨rfl, new⟩
    · simpa [old existing] using wf.rings u existing
    · simpa using (ring new).1
  · intro u present
    rcases (enlarged u).mp present with existing | ⟨rfl, new⟩
    · simpa [old existing] using wf.nodup u existing
    · simp [(ring new).2]
  · intro u t present member
    rcases (enlarged u).mp present with existing | ⟨rfl, new⟩
    · exact wf.queued u t existing (by simpa [old existing] using member)
    · simp [(ring new).2] at member
  · intro t sleeping
    obtain ⟨u, waits, existing, member⟩ := wf.asleep t sleeping
    exact ⟨u, waits, (enlarged u).mpr (Or.inl existing), by simpa [old existing] using member⟩
  · intro t state
    have names := wf.named t state
    show View.Names _ (v.conts t)
    revert names
    cases v.conts t with
    | user => exact fun _ => trivial
    | spinning m => exact grows m
    | inLock m => exact fun existing => (enlarged _).mpr (Or.inl existing)
    | inDown s => exact fun existing => (enlarged _).mpr (Or.inl existing)
    | inWait c m => exact fun ⟨existing, known⟩ => ⟨(enlarged _).mpr (Or.inl existing), grows m known⟩

end View

end BtbuOs.Sync
