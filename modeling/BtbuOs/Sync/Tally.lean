import BtbuOs.Sync.Units
import Mathlib.Data.Fintype.Card

namespace BtbuOs.Sync

open Machine

/-- The semaphore of a call of `semaphore_up`. -/
def Event.upped : Event → Option LockId
  | .up _ s => some s
  | _ => none

/-- The semaphore of a down that starts. -/
def Event.downed : Event → Option LockId
  | .downStarted _ s => some s
  | _ => none

/-- The semaphore of a unit that a thread gets. -/
def Event.granted : Event → Option LockId
  | .acquired _ s => some s
  | _ => none

/-- The semaphore of a down that completes. -/
def Event.completed : Event → Option LockId
  | .downReturned _ s => some s
  | _ => none

/-- The number of events of one kind at a semaphore. -/
def tally (kind : Event → Option LockId) (s : LockId) (trace : List Event) : Nat :=
  trace.countP fun event => kind event = some s

def ups (s : LockId) (trace : List Event) : Nat := tally Event.upped s trace

def downs (s : LockId) (trace : List Event) : Nat := tally Event.downed s trace

def grants (s : LockId) (trace : List Event) : Nat := tally Event.granted s trace

def completions (s : LockId) (trace : List Event) : Nat := tally Event.completed s trace

/-- The process with a record of the counts that its semaphores were created with. -/
structure Ledger where
  proc : Proc
  res : LockId → Int

namespace Ledger

/-- A creation that finds a place records its argument. -/
def record (l : Ledger) : Action → LockId → Int
  | .semaphoreCreate resCount =>
      if room : l.proc.nextSemaphoreId < lockPoolSize then
        Function.update l.res ⟨l.proc.nextSemaphoreId, room⟩ resCount
      else l.res
  | _ => l.res

def step (l : Ledger) (action : Action) : Option (Ledger × List Event) :=
  (Sync.step l.proc action).map fun (after, events) => ({ proc := after, res := l.record action }, events)

def Initial (l : Ledger) : Prop := Sync.Initial l.proc

end Ledger

/-- The counting law of one semaphore. -/
structure Lawful (l : Ledger) (trace : List Event) (s : LockId) : Prop where
  count : (l.proc.semaphorePool s).count = l.res s + ups s trace - downs s trace
  waiting : ((l.proc.waitQueue (.semaphore s)).toList.length : Int) = max 0 (-(l.proc.semaphorePool s).count)
  completed : (completions s trace : Int) ≤ l.res s + ups s trace
  goes : ∀ t, l.proc.current = some t → ∀ message, semaphoreUp l.proc t s ≠ .error message

/-- The thread was woken in `semaphore_down` and has not run since. -/
def Woken (state : ThreadState) (cont : Cont) (s : LockId) : Prop := state = .runnable ∧ cont = .inDown s

instance (state : ThreadState) (cont : Cont) (s : LockId) : Decidable (Woken state cont s) :=
  inferInstanceAs (Decidable (_ ∧ _))

def woken (threads : Tid → ThreadState) (conts : Tid → Cont) (s : LockId) : Finset Tid :=
  Finset.univ.filter fun t => Woken (threads t) (conts t) s

/-- The number of waiters by the count of a semaphore that was created with this argument. -/
def queueLength (res count : Int) : Int := if 0 ≤ res then max 0 (-count) else res - count

/-- The invariant behind the counting law. -/
structure Balanced (res : LockId → Int) (p : Proc) (trace : List Event) : Prop where
  unborn : ∀ s, p.nextSemaphoreId ≤ s.val →
    ups s trace = 0 ∧ downs s trace = 0 ∧ grants s trace = 0 ∧ completions s trace = 0
  count : ∀ s, s.val < p.nextSemaphoreId → (p.semaphorePool s).count = res s + ups s trace - downs s trace
  queue : ∀ s, s.val < p.nextSemaphoreId →
    ((p.waitQueue (.semaphore s)).toList.length : Int) = queueLength (res s) (p.semaphorePool s).count
  granted : ∀ s, s.val < p.nextSemaphoreId →
    grants s trace + (p.waitQueue (.semaphore s)).toList.length = downs s trace
  returned : ∀ s, completions s trace + (woken p.threads p.conts s).card ≤ grants s trace

theorem tally_append (kind : Event → Option LockId) (s : LockId) (trace events : List Event) :
    tally kind s (trace ++ events) = tally kind s trace + tally kind s events :=
  List.countP_append

/-- Events of no semaphore. -/
def Quiet (events : List Event) : Prop := ∀ s, ups s events = 0 ∧ downs s events = 0 ∧ grants s events = 0 ∧
  completions s events = 0

variable {p q : Proc} {t : Tid} {trace events : List Event} {res : LockId → Int}

/-- Fewer woken threads. -/
theorem woken_card_le {threads after : Tid → ThreadState} {conts saved : Tid → Cont} {s : LockId}
    (fewer : ∀ u, Woken (after u) (saved u) s → Woken (threads u) (conts u) s) :
    (woken after saved s).card ≤ (woken threads conts s).card :=
  Finset.card_le_card fun u member => by
    simp only [woken, Finset.mem_filter, Finset.mem_univ, true_and] at member ⊢
    exact fewer u member

/-- A change at one thread that is not woken in `semaphore_down`. -/
theorem woken_update {state : ThreadState} {cont : Cont} (after : ∀ s, ¬Woken state cont s) (u : Tid) (s : LockId)
    (now : Woken (Function.update p.threads t state u) (Function.update p.conts t cont u) s) :
    Woken (p.threads u) (p.conts u) s := by
  by_cases same : u = t
  · subst same
    simp [after s] at now
  · simpa [same] using now

theorem woken_thread {state : ThreadState} (after : ∀ s, ¬Woken state (p.conts t) s) (u : Tid) (s : LockId)
    (now : Woken (Function.update p.threads t state u) (p.conts u) s) : Woken (p.threads u) (p.conts u) s := by
  by_cases same : u = t
  · subst same
    simp [after s] at now
  · simpa [same] using now

/-- An effect outside the semaphores. -/
theorem Balanced.quiet (balanced : Balanced res p trace) (next : q.nextSemaphoreId = p.nextSemaphoreId)
    (counts : ∀ s, (q.semaphorePool s).count = (p.semaphorePool s).count)
    (queues : ∀ s, q.waitQueue (.semaphore s) = p.waitQueue (.semaphore s)) (quiet : Quiet events)
    (fewer : ∀ u s, Woken (q.threads u) (q.conts u) s → Woken (p.threads u) (p.conts u) s) :
    Balanced res q (trace ++ events) := by
  have same (s : LockId) : ups s (trace ++ events) = ups s trace ∧ downs s (trace ++ events) = downs s trace ∧
      grants s (trace ++ events) = grants s trace ∧ completions s (trace ++ events) = completions s trace := by
    obtain ⟨up, down, grant, completion⟩ := quiet s
    simp only [ups, downs, grants, completions, tally_append] at up down grant completion ⊢
    omega
  constructor
  · intro s late
    rw [(same s).1, (same s).2.1, (same s).2.2.1, (same s).2.2.2]
    exact balanced.unborn s (by rwa [next] at late)
  · intro s made
    rw [counts, (same s).1, (same s).2.1]
    exact balanced.count s (by rwa [next] at made)
  · intro s made
    rw [counts, queues]
    exact balanced.queue s (by rwa [next] at made)
  · intro s made
    rw [queues, (same s).2.1, (same s).2.2.1]
    exact balanced.granted s (by rwa [next] at made)
  · intro s
    have bound := woken_card_le (s := s) fun u => fewer u s
    have before := balanced.returned s
    rw [(same s).2.2.1, (same s).2.2.2]
    omega

theorem setWaitQueue_count (p : Proc) (w : WaitId) (q : Queue Tid) (s : LockId) :
    ((p.setWaitQueue w q).semaphorePool s).count = (p.semaphorePool s).count := by
  cases w with
  | semaphore id => by_cases same : s = id <;> simp [Proc.setWaitQueue, Proc.setSemaphore, same]
  | mutex | condvar => rfl

theorem setWaitQueue_semaphore (p : Proc) {w : WaitId} (q : Queue Tid) (other : ∀ s, w ≠ .semaphore s) (s : LockId) :
    (p.setWaitQueue w q).waitQueue (.semaphore s) = p.waitQueue (.semaphore s) := by
  rw [waitQueue_setWaitQueue, Function.update_of_ne (Ne.symm (other s))]

theorem setCount_count (p : Proc) (s r : LockId) (count : Int) :
    ((p.setCount s count).semaphorePool r).count = if r = s then count else (p.semaphorePool r).count := by
  by_cases same : r = s <;> simp [Proc.setCount, Proc.setSemaphore, same]

theorem setCount_waitQueue (p : Proc) (s : LockId) (count : Int) : (p.setCount s count).waitQueue = p.waitQueue :=
  congrArg View.queues (view_setCount p s count)

theorem semaphoreRelease_count (p : Proc) (t : Tid) (s r : LockId) :
    ((semaphoreRelease p t s).semaphorePool r).count =
      if r = s then (p.semaphorePool s).count + 1 else (p.semaphorePool r).count := by
  unfold semaphoreRelease
  split
  all_goals
    rw [setCount_count]

theorem semaphoreRelease_waitQueue (p : Proc) (t : Tid) (s : LockId) :
    (semaphoreRelease p t s).waitQueue = p.waitQueue :=
  congrArg View.queues (view_semaphoreRelease p t s)

theorem semaphoreRelease_next (p : Proc) (t : Tid) (s : LockId) :
    (semaphoreRelease p t s).nextSemaphoreId = p.nextSemaphoreId := by
  unfold semaphoreRelease
  split <;> rfl

/-- A woken waiter of another primitive than a semaphore. -/
theorem popped_not_woken (wf : p.view.Wf) {w : WaitId} (made : p.Created w) {next : Tid} {ring : Queue Tid}
    (popped : popQueue (p.waitQueue w) = (some next, ring)) (other : ∀ s, w ≠ .semaphore s) (state : ThreadState)
    (s : LockId) : ¬Woken state (p.conts next) s := by
  obtain ⟨_, _, waits⟩ := popped_facts wf made popped
  rintro ⟨_, down⟩
  rw [down] at waits
  exact other s (Option.some.inj waits).symm

/-- One semaphore changes its count, its queue and its events, and the others keep theirs. -/
theorem Balanced.change {s : LockId} (balanced : Balanced res p trace) (known : s.val < p.nextSemaphoreId)
    (next : q.nextSemaphoreId = p.nextSemaphoreId)
    (counts : ∀ r, r ≠ s → (q.semaphorePool r).count = (p.semaphorePool r).count)
    (queues : ∀ r, r ≠ s → q.waitQueue (.semaphore r) = p.waitQueue (.semaphore r))
    (others : ∀ r, r ≠ s → ups r events = 0 ∧ downs r events = 0 ∧ grants r events = 0 ∧ completions r events = 0)
    (fewer : ∀ r, r ≠ s → (woken q.threads q.conts r).card ≤ (woken p.threads p.conts r).card)
    (count : (q.semaphorePool s).count = (p.semaphorePool s).count + ups s events - downs s events)
    (queue : ((q.waitQueue (.semaphore s)).toList.length : Int) = queueLength (res s) (q.semaphorePool s).count)
    (granted : grants s events + (q.waitQueue (.semaphore s)).toList.length =
      downs s events + (p.waitQueue (.semaphore s)).toList.length)
    (returned : completions s events + (woken q.threads q.conts s).card ≤
      grants s events + (woken p.threads p.conts s).card) :
    Balanced res q (trace ++ events) := by
  have sums (r : LockId) : ups r (trace ++ events) = ups r trace + ups r events ∧
      downs r (trace ++ events) = downs r trace + downs r events ∧
      grants r (trace ++ events) = grants r trace + grants r events ∧
      completions r (trace ++ events) = completions r trace + completions r events :=
    ⟨tally_append .., tally_append .., tally_append .., tally_append ..⟩
  constructor
  · intro r late
    rw [next] at late
    have other : r ≠ s := by
      rintro rfl
      omega
    have before := balanced.unborn r late
    have nothing := others r other
    have sum := sums r
    omega
  · intro r made
    rw [next] at made
    have sum := sums r
    by_cases own : r = s
    · subst own
      have before := balanced.count r made
      omega
    · have before := balanced.count r made
      have nothing := others r own
      rw [counts r own]
      omega
  · intro r made
    by_cases own : r = s
    · subst own
      exact queue
    · rw [counts r own, queues r own]
      exact balanced.queue r (by omega)
  · intro r made
    have sum := sums r
    by_cases own : r = s
    · subst own
      have before := balanced.granted r known
      omega
    · have before := balanced.granted r (by omega)
      have nothing := others r own
      rw [queues r own]
      omega
  · intro r
    have sum := sums r
    have before := balanced.returned r
    by_cases own : r = s
    · subst own
      omega
    · have nothing := others r own
      have bound := fewer r own
      omega

/-- An effect outside the semaphores emits nothing about them. -/
theorem quiet_of_other (plain : ∀ event ∈ events, event.upped = none ∧ event.downed = none ∧ event.granted = none ∧
    event.completed = none) : Quiet events := by
  have none (kind : Event → Option LockId) (plain : ∀ event ∈ events, kind event = none) (s : LockId) :
      tally kind s events = 0 := by
    rw [tally, List.countP_eq_zero]
    intro event member
    simp [plain event member]
  intro s
  exact ⟨none _ (fun event member => (plain event member).1) s, none _ (fun event member => (plain event member).2.1) s,
    none _ (fun event member => (plain event member).2.2.1) s,
    none _ (fun event member => (plain event member).2.2.2) s⟩

/-- A creation records its argument in the count and starts with an empty queue. -/
theorem Balanced.create (balanced : Balanced res p trace) {id : LockId} {count : Int} (fresh : id.val = p.nextSemaphoreId)
    {ring : Queue Tid} (empty : ring.toList = []) (recorded : res id = count) :
    Balanced res { p.setSemaphore id { count, waitQueue := ring } with nextSemaphoreId := p.nextSemaphoreId + 1 }
      trace := by
  obtain ⟨up, down, grant, _⟩ := balanced.unborn id (by omega)
  have pool (r : LockId) (other : r ≠ id) : (p.setSemaphore id { count, waitQueue := ring }).semaphorePool r =
      p.semaphorePool r := by simp [Proc.setSemaphore, other]
  have own : (p.setSemaphore id { count, waitQueue := ring }).semaphorePool id = { count, waitQueue := ring } := by
    simp [Proc.setSemaphore]
  have born (r : LockId) (made : r.val < p.nextSemaphoreId + 1) (other : r ≠ id) : r.val < p.nextSemaphoreId := by
    have apart : r.val ≠ id.val := fun same => other (Fin.ext same)
    omega
  constructor
  · intro r late
    change p.nextSemaphoreId + 1 ≤ r.val at late
    exact balanced.unborn r (by omega)
  · intro r made
    show ((p.setSemaphore id { count, waitQueue := ring }).semaphorePool r).count = _
    by_cases same : r = id
    · subst same
      rw [own, recorded, up, down]
      simp
    · rw [pool r same]
      exact balanced.count r (born r made same)
  · intro r made
    show (((p.setSemaphore id { count, waitQueue := ring }).semaphorePool r).waitQueue.toList.length : Int) =
      queueLength (res r) ((p.setSemaphore id { count, waitQueue := ring }).semaphorePool r).count
    by_cases same : r = id
    · subst same
      rw [own, recorded, empty]
      show (0 : Int) = queueLength count count
      unfold queueLength
      split <;> omega
    · rw [pool r same]
      exact balanced.queue r (born r made same)
  · intro r made
    show grants r trace + ((p.setSemaphore id { count, waitQueue := ring }).semaphorePool r).waitQueue.toList.length = _
    by_cases same : r = id
    · subst same
      rw [own, empty, grant, down]
      rfl
    · rw [pool r same]
      exact balanced.granted r (born r made same)
  · exact balanced.returned

/-- A creation has the argument that the record keeps. -/
def Recorded (res : LockId → Int) : Label → Prop
  | .createSemaphore id count => res id = count
  | _ => True

/-- Every effect keeps the counting invariant. -/
theorem Balanced.effect {label : Label} (wf : p.Wf) (balanced : Balanced res p trace) (recorded : Recorded res label)
    (effect : Micro p label events q) : Balanced res q (trace ++ events) := by
  cases effect with
  | report | detect | clearMutexRequest | clearSemRequest | createMutex | createCondvar =>
      exact balanced.quiet rfl (fun _ => rfl) (fun _ => rfl)
        (quiet_of_other (by simp [Event.upped, Event.downed, Event.granted, Event.completed])) (fun _ _ => id)
  | preempt | dispatch | poll | leaveSpin | resumeLock =>
      exact balanced.quiet rfl (fun _ => rfl) (fun _ => rfl)
        (quiet_of_other (by simp [Event.upped, Event.downed, Event.granted, Event.completed]))
        (woken_update (by simp [Woken]))
  | createSemaphore count fresh ring valid sized =>
      rw [List.append_nil]
      exact balanced.create fresh valid.2 recorded
  | take runs known free =>
      exact balanced.quiet rfl (fun _ => rfl) (fun _ => rfl)
        (quiet_of_other (by simp [Event.upped, Event.downed, Event.granted, Event.completed])) (fun _ _ => id)
  | wait runs known busy blocks pushed =>
      exact balanced.quiet rfl (fun _ => rfl) (fun _ => rfl)
        (quiet_of_other (by simp)) (woken_update (by simp [Woken]))
  | release runs known unclaimed =>
      exact balanced.quiet rfl (fun _ => rfl) (fun _ => rfl)
        (quiet_of_other (by simp [Event.upped, Event.downed, Event.granted, Event.completed])) (fun _ _ => id)
  | handOver runs known blocks popped =>
      rename_i t m next ring
      have made : p.Created (.mutex m) := ⟨known, blocks⟩
      exact balanced.quiet rfl (fun _ => rfl) (fun _ => rfl)
        (quiet_of_other (by simp [Event.upped, Event.downed, Event.granted, Event.completed]))
        (woken_thread (popped_not_woken (wf.alive (Or.inl runs)) made popped (by simp) .runnable))
  | «raise» runs known free =>
      rename_i t s
      obtain ⟨threads, conts, _⟩ := semaphoreRelease_threads p t s
      have waiters := balanced.queue s known
      rw [semaphoreRelease_count, if_pos rfl] at free
      apply balanced.change known
      · exact semaphoreRelease_next p t s
      · intro r other
        rw [semaphoreRelease_count, if_neg other]
      · intro r _
        rw [semaphoreRelease_waitQueue]
      · intro r other
        simp [ups, downs, grants, completions, tally, Event.upped, Event.downed, Event.granted, Event.completed,
          Ne.symm other]
      · intro r _
        exact woken_card_le fun u now => by rwa [threads, conts] at now
      · rw [semaphoreRelease_count, if_pos rfl]
        simp [ups, downs, tally, Event.upped, Event.downed]
      · rw [semaphoreRelease_waitQueue, semaphoreRelease_count, if_pos rfl, waiters]
        unfold queueLength at waiters ⊢
        split at waiters <;> omega
      · rw [semaphoreRelease_waitQueue]
        simp [grants, downs, tally, Event.granted, Event.downed]
      · rw [threads, conts]
        simp [completions, grants, tally, Event.completed, Event.granted]
  | raiseWake runs known owed popped =>
      rename_i t s next ring
      obtain ⟨threads, conts, _⟩ := semaphoreRelease_threads p t s
      have alive := wf.alive (Or.inl runs)
      have waiters := balanced.queue s known
      have made : p.Created (.semaphore s) := known
      obtain ⟨_, content, _⟩ := Queue.popQueue_some (alive.rings (.semaphore s) made) popped
      change (p.waitQueue (.semaphore s)).toList = next :: ring.toList at content
      rw [semaphoreRelease_count, if_pos rfl] at owed
      have states (u : Tid) (r : LockId) (now : Woken (Function.update (semaphoreRelease p t s).threads next .runnable u)
          ((semaphoreRelease p t s).conts u) r) : u = next ∧ p.conts next = .inDown r ∨ Woken (p.threads u) (p.conts u) r := by
        rw [threads, conts] at now
        by_cases same : u = next
        · subst same
          exact Or.inl ⟨rfl, now.2⟩
        · exact Or.inr (by simpa [same] using now)
      have saved : (p.conts next).waitId = some (.semaphore s) :=
        (popped_facts alive made popped).2.2
      have counted (r : LockId) : (((semaphoreRelease p t s).setWaitQueue (.semaphore s) ring).semaphorePool r).count =
          if r = s then (p.semaphorePool s).count + 1 else (p.semaphorePool r).count := by
        rw [setWaitQueue_count, semaphoreRelease_count]
      have queued (r : LockId) : ((semaphoreRelease p t s).setWaitQueue (.semaphore s) ring).waitQueue (.semaphore r) =
          if r = s then ring else p.waitQueue (.semaphore r) := by
        rw [waitQueue_setWaitQueue, semaphoreRelease_waitQueue]
        by_cases same : r = s <;> simp [same]
      apply balanced.change known
      · exact semaphoreRelease_next p t s
      · intro r other
        exact (counted r).trans (if_neg other)
      · intro r other
        exact (queued r).trans (if_neg other)
      · intro r other
        simp [ups, downs, grants, completions, tally, Event.upped, Event.downed, Event.granted, Event.completed,
          Ne.symm other]
      · intro r other
        refine woken_card_le fun u now => ?_
        rcases states u r now with ⟨rfl, down⟩ | old
        · rw [down] at saved
          exact absurd (by simpa [Cont.waitId] using saved) other
        · exact old
      · refine (counted s).trans ?_
        simp [ups, downs, tally, Event.upped, Event.downed]
      · have rest : ((p.waitQueue (.semaphore s)).toList.length : Int) = ring.toList.length + 1 := by simp [content]
        show ((((semaphoreRelease p t s).setWaitQueue (.semaphore s) ring).waitQueue (.semaphore s)).toList.length : Int) =
          queueLength (res s) (((semaphoreRelease p t s).setWaitQueue (.semaphore s) ring).semaphorePool s).count
        rw [queued s, if_pos rfl, counted s, if_pos rfl]
        rw [rest] at waiters
        unfold queueLength at waiters ⊢
        split at waiters <;> omega
      · show _ + (((semaphoreRelease p t s).setWaitQueue (.semaphore s) ring).waitQueue (.semaphore s)).toList.length = _
        rw [queued s, if_pos rfl, content]
        simp [grants, downs, tally, Event.granted, Event.downed, Nat.add_comm]
      · have more : (woken (Function.update (semaphoreRelease p t s).threads next .runnable) (semaphoreRelease p t s).conts
            s).card ≤ (woken p.threads p.conts s).card + 1 := by
          refine Nat.le_trans (Finset.card_le_card fun u member => ?_) (Finset.card_insert_le next (woken p.threads p.conts s))
          simp only [woken, Finset.mem_filter, Finset.mem_univ, true_and] at member
          rw [Finset.mem_insert]
          rcases states u s member with ⟨same, _⟩ | old
          · exact Or.inl same
          · exact Or.inr (by simpa [woken] using old)
        have counts : completions s [.up t s, .acquired next s] = 0 ∧ grants s [.up t s, .acquired next s] = 1 := by
          simp [completions, grants, tally, Event.completed, Event.granted]
        show _ + (woken (Function.update (semaphoreRelease p t s).threads next .runnable)
          (semaphoreRelease p t s).conts s).card ≤ _
        omega
  | lower runs known free =>
      rename_i t s
      have waiters := balanced.queue s known
      apply balanced.change known
      · rfl
      · intro r other
        exact (setCount_count p s r _).trans (if_neg other)
      · intro r _
        exact congrFun (setCount_waitQueue p s ((p.semaphorePool s).count - 1)) (.semaphore r)
      · intro r other
        simp [ups, downs, grants, completions, tally, Event.upped, Event.downed, Event.granted, Event.completed,
          Ne.symm other]
      · exact fun r _ => Nat.le_refl _
      · refine (setCount_count p s s _).trans ?_
        simp [ups, downs, tally, Event.upped, Event.downed, Int.sub_eq_add_neg]
      · show (((p.setCount s ((p.semaphorePool s).count - 1)).waitQueue (.semaphore s)).toList.length : Int) =
          queueLength (res s) ((p.setCount s ((p.semaphorePool s).count - 1)).semaphorePool s).count
        rw [setCount_waitQueue, setCount_count, if_pos rfl, waiters]
        unfold queueLength at waiters ⊢
        split at waiters <;> omega
      · show _ + ((p.setCount s ((p.semaphorePool s).count - 1)).waitQueue (.semaphore s)).toList.length = _
        rw [setCount_waitQueue]
        simp [grants, downs, tally, Event.granted, Event.downed]
      · show _ + (woken p.threads p.conts s).card ≤ _
        simp [completions, grants, tally, Event.completed, Event.granted]
  | lowerBlock runs known spent pushed =>
      rename_i t s ring
      have waiters := balanced.queue s known
      have made : p.Created (.semaphore s) := known
      obtain ⟨_, content, _⟩ := Queue.pushQueue_ok ((wf.alive (Or.inl runs)).rings (.semaphore s) made) pushed
      change ring.toList = (p.waitQueue (.semaphore s)).toList ++ [t] at content
      have counted (r : LockId) : (((p.setCount s ((p.semaphorePool s).count - 1)).setWaitQueue (.semaphore s)
          ring).semaphorePool r).count = if r = s then (p.semaphorePool s).count - 1 else (p.semaphorePool r).count := by
        rw [setWaitQueue_count, setCount_count]
      have queued (r : LockId) : ((p.setCount s ((p.semaphorePool s).count - 1)).setWaitQueue (.semaphore s)
          ring).waitQueue (.semaphore r) = if r = s then ring else p.waitQueue (.semaphore r) := by
        rw [waitQueue_setWaitQueue, setCount_waitQueue]
        by_cases same : r = s <;> simp [same]
      apply balanced.change known
      · rfl
      · intro r other
        exact (counted r).trans (if_neg other)
      · intro r other
        exact (queued r).trans (if_neg other)
      · intro r other
        simp [ups, downs, grants, completions, tally, Event.upped, Event.downed, Event.granted, Event.completed,
          Ne.symm other]
      · intro r _
        exact woken_card_le fun u => woken_update (by simp [Woken]) u r
      · refine (counted s).trans ?_
        simp [ups, downs, tally, Event.upped, Event.downed, Int.sub_eq_add_neg]
      · show ((((p.setCount s ((p.semaphorePool s).count - 1)).setWaitQueue (.semaphore s) ring).waitQueue
          (.semaphore s)).toList.length : Int) = queueLength (res s) (((p.setCount s
            ((p.semaphorePool s).count - 1)).setWaitQueue (.semaphore s) ring).semaphorePool s).count
        rw [queued s, if_pos rfl, counted s, if_pos rfl, content, List.length_append]
        unfold queueLength at waiters ⊢
        simp only [List.length_singleton]
        split at waiters <;> omega
      · show _ + (((p.setCount s ((p.semaphorePool s).count - 1)).setWaitQueue (.semaphore s) ring).waitQueue
          (.semaphore s)).toList.length = _
        rw [queued s, if_pos rfl, content]
        simp [grants, downs, tally, Event.granted, Event.downed, Nat.add_comm]
      · have fewer : (woken (Function.update p.threads t .sleeping) (Function.update p.conts t (.inDown s)) s).card ≤
            (woken p.threads p.conts s).card := woken_card_le fun u => woken_update (by simp [Woken]) u s
        have counts : completions s [.downStarted t s] = 0 := by simp [completions, tally, Event.completed]
        show _ + (woken (Function.update p.threads t .sleeping) (Function.update p.conts t (.inDown s)) s).card ≤ _
        omega
  | resumeDown idle ready waits =>
      rename_i t s
      have fewer (r : LockId) (u : Tid) (now : Woken (Function.update p.threads t .running u)
          (Function.update p.conts t .user u) r) : u ≠ t ∧ Woken (p.threads u) (p.conts u) r := by
        by_cases same : u = t
        · subst same
          simp [Woken] at now
        · exact ⟨same, by simpa [same] using now⟩
      have here : t ∈ woken p.threads p.conts s := Finset.mem_filter.mpr ⟨Finset.mem_univ t, ready, waits⟩
      have less : (woken (Function.update p.threads t .running) (Function.update p.conts t .user) s).card + 1 ≤
          (woken p.threads p.conts s).card := by
        rw [← Finset.card_erase_add_one here]
        apply Nat.add_le_add_right
        apply Finset.card_le_card
        intro u member
        simp only [woken, Finset.mem_filter, Finset.mem_univ, true_and, Finset.mem_erase] at member ⊢
        exact fewer s u member
      have known : s.val < p.nextSemaphoreId := by
        have names := (wf.alive (Or.inr ready)).named t (Or.inr ready)
        rwa [show p.view.conts t = .inDown s from waits] at names
      have waiters := balanced.queue s known
      have counts : ups s [.downReturned t s] = 0 ∧ downs s [.downReturned t s] = 0 ∧ grants s [.downReturned t s] = 0 ∧
          completions s [.downReturned t s] = 1 := by
        simp [ups, downs, grants, completions, tally, Event.upped, Event.downed, Event.granted, Event.completed]
      apply balanced.change known
      · rfl
      · exact fun r _ => rfl
      · exact fun r _ => rfl
      · intro r other
        simp [ups, downs, grants, completions, tally, Event.upped, Event.downed, Event.granted, Event.completed,
          Ne.symm other]
      · exact fun r _ => woken_card_le fun u now => (fewer r u now).2
      · rw [counts.1, counts.2.1]
        simp [Proc.enter, Proc.setThread, Proc.setCont]
      · exact waiters
      · rw [counts.2.1, counts.2.2.1]
        rfl
      · show _ + (woken (Function.update p.threads t .running) (Function.update p.conts t .user) s).card ≤ _
        omega
  | signal runs known popped =>
      rename_i c next t ring
      have made : p.Created (.condvar c) := known
      exact balanced.quiet rfl (fun _ => rfl) (fun _ => rfl) (quiet_of_other (by simp))
        (woken_thread (popped_not_woken (wf.alive (Or.inl runs)) made popped (by simp) .runnable))
  | waitCond runs made known pushed =>
      exact balanced.quiet rfl (fun _ => rfl) (fun _ => rfl) (quiet_of_other (by simp)) (woken_update (by simp [Woken]))
  | start runs free =>
      exact balanced.quiet rfl (fun _ => rfl) (fun _ => rfl)
        (quiet_of_other (by simp [Event.upped, Event.downed, Event.granted, Event.completed]))
        (woken_update (by simp [Woken]))
  | collect ended =>
      exact balanced.quiet rfl (fun _ => rfl) (fun _ => rfl) (quiet_of_other (by simp)) (woken_thread (by simp [Woken]))
  | exit code runs worker =>
      exact balanced.quiet rfl (fun _ => rfl) (fun _ => rfl)
        (quiet_of_other (by simp [Event.upped, Event.downed, Event.granted, Event.completed]))
        (woken_thread (by simp [Woken]))
  | exitProcess code runs main =>
      refine balanced.quiet rfl (fun _ => rfl) (fun _ => rfl) (quiet_of_other ?_) (by simp [Woken])
      simp [Event.upped, Event.downed, Event.granted, Event.completed]

theorem Initial.balanced {p : Proc} (initial : Initial p) (res : LockId → Int) : Balanced res p [] := by
  have none (s : LockId) : ¬s.val < p.nextSemaphoreId := by
    rw [initial.semaphores]
    exact Nat.not_lt_zero _
  constructor
  · intro s _
    simp [ups, downs, grants, completions, tally]
  · exact fun s made => absurd made (none s)
  · exact fun s made => absurd made (none s)
  · exact fun s made => absurd made (none s)
  · intro s
    have absent : woken p.threads p.conts s = ∅ := by
      apply Finset.filter_eq_empty_iff.mpr
      rintro t _ ⟨ready, down⟩
      by_cases main : t = 0
      · subst main
        simp [initial.conts] at down
      · simp [initial.others t main] at ready
    simp [absent, completions, grants, tally]

/-- The invariant does not depend on the record of semaphores that do not exist. -/
theorem Balanced.agree (balanced : Balanced res p trace) {other : LockId → Int}
    (same : ∀ s, s.val < p.nextSemaphoreId → other s = res s) : Balanced other p trace := by
  refine ⟨balanced.unborn, fun s known => ?_, fun s known => ?_, balanced.granted, balanced.returned⟩
  · rw [same s known]
    exact balanced.count s known
  · rw [same s known]
    exact balanced.queue s known

namespace Ledger

/-- The record changes only at the semaphore that is created. -/
theorem record_old (l : Ledger) (action : Action) {s : LockId} (known : s.val < l.proc.nextSemaphoreId) :
    l.record action s = l.res s := by
  cases action with
  | semaphoreCreate resCount =>
      simp only [record]
      split
      · rename_i room
        have other : s ≠ ⟨l.proc.nextSemaphoreId, room⟩ := by
          rintro rfl
          exact Nat.lt_irrefl _ known
        rw [Function.update_of_ne other]
      · rfl
  | _ => rfl

/-- Each step keeps the counting invariant. -/
theorem step_balanced {l after : Ledger} {trace events : List Event} {action : Action} (wf : l.proc.Wf)
    (balanced : Balanced l.res l.proc trace) (stepped : l.step action = some (after, events)) :
    after.proc.Wf ∧ Balanced after.res after.proc (trace ++ events) := by
  unfold step at stepped
  rw [Option.map_eq_some_iff] at stepped
  obtain ⟨⟨q, emitted⟩, moved, result⟩ := stepped
  simp only [Prod.mk.injEq] at result
  obtain ⟨rfl, rfl⟩ := result
  have path : Path (Caused l.proc trace action) l.proc trace q (trace ++ emitted) := step_path wf moved
  refine path.invariant (fun q sofar => q.Wf ∧ Balanced (l.record action) q sofar) ?_ ⟨wf, balanced.agree fun s => record_old l action⟩
  intro q sofar label listed r before caused effect
  refine ⟨effect.wf before.1, before.2.effect before.1 ?_ effect⟩
  cases label with
  | createSemaphore id count =>
      obtain ⟨rfl, fresh⟩ := caused
      have place : id = ⟨l.proc.nextSemaphoreId, fresh ▸ id.isLt⟩ := Fin.ext fresh
      have room : l.proc.nextSemaphoreId < lockPoolSize := fresh ▸ id.isLt
      simp only [Recorded, record, room, dif_pos]
      rw [place, Function.update_self]
  | _ => trivial

/-- In every state each semaphore obeys the counting law exactly when it was created with a count that is not negative. -/
theorem semaphore_law {l : Ledger} {trace : List Event} (reached : Reaches step (fun _ _ _ => True) Initial l trace)
    (s : LockId) (made : s.val < l.proc.nextSemaphoreId) : Lawful l trace s ↔ 0 ≤ l.res s := by
  have kept : l.proc.Wf ∧ Balanced l.res l.proc trace := by
    refine reached.invariant (fun l trace => l.proc.Wf ∧ Balanced l.res l.proc trace) ?_ ?_
    · exact fun l begun => ⟨Sync.Initial.wf begun, Sync.Initial.balanced begun l.res⟩
    · exact fun l trace action after events before _ stepped => step_balanced before.1 before.2 stepped
  obtain ⟨wf, balanced⟩ := kept
  have count := balanced.count s made
  have queue := balanced.queue s made
  have granted := balanced.granted s made
  have returned := balanced.returned s
  constructor
  · intro law
    by_contra negative
    have waiting := law.waiting
    unfold queueLength at queue
    rw [if_neg negative] at queue
    omega
  · intro positive
    unfold queueLength at queue
    rw [if_pos positive] at queue
    refine ⟨count, queue, by omega, fun t runs message failed => ?_⟩
    have alive := wf.alive (Or.inl runs)
    unfold semaphoreUp at failed
    simp only at failed
    rw [semaphoreRelease_count, if_pos rfl] at failed
    split at failed
    · rename_i owed
      split at failed
      · rename_i rest nobody
        have created : l.proc.view.created (.semaphore s) := made
        have popped : (popQueue (l.proc.waitQueue (.semaphore s))).1 = none := by
          simp only [Proc.wake, semaphoreRelease_waitQueue] at nobody
          split at nobody
          · rename_i empty
            rw [empty]
          · simp at nobody
        have nobody := (Queue.popQueue_none (alive.rings (.semaphore s) created)).mp popped
        change (l.proc.waitQueue (.semaphore s)).toList = [] at nobody
        rw [nobody] at queue
        simp only [List.length_nil] at queue
        omega
      · simp at failed
    · simp at failed

def freshLedger : Ledger := { proc := freshProc, res := fun _ => 0 }

/-- A thread waits for a unit, and another one gives it. -/
theorem semaphore_law_run : ∃ l trace, Reaches step (fun _ _ _ => True) Initial l trace ∧
    completions 0 trace = 2 ∧ Lawful l trace 0 := by
  obtain ⟨l, trace, reached, facts⟩ := replay_witness step (fun _ _ _ => True) Initial
    [.schedule 0, .semaphoreCreate 1, .threadCreate, .semaphoreDown 0, .yield, .schedule 1, .semaphoreDown 0, .schedule 0,
      .semaphoreUp 0, .yield, .schedule 1]
    freshLedger freshProc_initial
    (fun l trace => decide (completions 0 trace = 2 ∧ 0 < l.proc.nextSemaphoreId ∧ 0 ≤ l.res 0)) (by decide +kernel)
  obtain ⟨completed, made, positive⟩ := of_decide_eq_true facts
  exact ⟨l, trace, reached, completed, (semaphore_law reached 0 made).mpr positive⟩

/-- A semaphore that is created with -1 counts a waiter that it does not have. -/
theorem negative_count_accepted : ¬∀ l trace, Reaches step (fun _ _ _ => True) Initial l trace →
    ∀ s, s.val < l.proc.nextSemaphoreId → Lawful l trace s := by
  intro claim
  obtain ⟨l, trace, reached, facts⟩ := replay_witness step (fun _ _ _ => True) Initial
    [.schedule 0, .semaphoreCreate (-1)] freshLedger freshProc_initial
    (fun l _ => decide (0 < l.proc.nextSemaphoreId ∧ (l.proc.semaphorePool 0).count = -1 ∧
      (l.proc.waitQueue (.semaphore 0)).toList = [])) (by decide +kernel)
  obtain ⟨made, count, nobody⟩ := of_decide_eq_true facts
  have waiting := (claim l trace reached 0 made).waiting
  simp [count, nobody] at waiting

end Ledger

end BtbuOs.Sync
