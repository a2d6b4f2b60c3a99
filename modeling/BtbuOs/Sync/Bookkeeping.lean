import BtbuOs.Sync.Deadlock
import BtbuOs.Sync.Units

namespace BtbuOs.Sync

open Machine

/-- The lock words, the two matrices and the owners of the mutexes agree, and every slot for a new thread is clear. -/
structure Consistent (p : Proc) (trace : List Event) : Prop where
  taken : ∀ m : LockId, m.val < p.nextMutexId →
    ((p.mutexPool m).locked = true ↔ ∃ t, ∀ u, p.mutexAllocation u m = 1 ↔ u = t)
  holder : ∀ (m : LockId) t, m.val < p.nextMutexId → p.mutexAllocation t m = 1 → Live p t ∧ Owner p trace m t
  fresh : ∀ t, p.threads t = .unused → ∀ m, p.mutexAllocation t m = 0 ∧ p.mutexRequest t m = 0

/-- The mutex is free, or the row of the caller or of the oldest waiter has the entry. -/
def UnlockKeeps (p : Proc) (t : Tid) (m : LockId) : Prop :=
  (p.mutexPool m).locked = true → p.mutexAllocation t m = 1 ∨
    ∃ next, (popQueue (p.waitQueue (.mutex m))).1 = some next ∧ p.mutexAllocation next m = 1

/-- A thread exits with a row that has no entry. -/
def ExitKeeps (p : Proc) (t : Tid) : Prop := ∀ m : LockId, m.val < p.nextMutexId → p.mutexAllocation t m ≠ 1

def Action.Exits : Action → Prop
  | .exit _ => True
  | _ => False

/-- The step unlocks for the thread that has the entry, and no other thread than the main one exits with an entry. -/
structure KeepsBooks (p : Proc) (action : Action) : Prop where
  unlock : ∀ t m, p.current = some t → action.unlocks p = some m → UnlockKeeps p t m
  exit : ∀ t, p.current = some t → action.Exits → t ≠ 0 → ExitKeeps p t

/-- Every new mutex is a blocking one. -/
def CreatesBlocking : Action → Prop
  | .mutexCreate blocking => blocking ≠ 0
  | _ => True

/-- The labels that such a step has. -/
def BooksLabel (p : Proc) : Label → Prop
  | .release t m | .handOver t m _ => p.current = some t → UnlockKeeps p t m
  | .createMutex _ blocking => blocking = true
  | .exit t => p.current = some t → t ≠ 0 → ExitKeeps p t
  | _ => True

theorem booksLabel_of_caused {p q : Proc} {trace sofar : List Event} {action : Action} {label : Label}
    (keeps : KeepsBooks p action) (blocks : CreatesBlocking action) (caused : Caused p trace action q sofar label) :
    BooksLabel q label := by
  cases label with
  | release t m | handOver t m next =>
      obtain ⟨rfl, rfl, unlocks⟩ := caused
      exact fun runs => keeps.unlock t m runs unlocks
  | createMutex id blocking =>
      obtain ⟨flag, rfl, rfl⟩ := caused
      exact decide_eq_true blocks
  | exit t =>
      obtain ⟨rfl, code, exits⟩ := caused
      exact fun runs => keeps.exit t runs (by rw [exits]; trivial)
  | _ => trivial

/-- The invariant behind consistent books. -/
structure Audited (p : Proc) (trace : List Event) : Prop where
  owned : Owned p trace
  booked : Booked p trace
  busy : ∀ m : LockId, m.val < p.nextMutexId → (p.mutexPool m).locked = true → ∃ t, Owner p trace m t
  live : ∀ m t, Owner p trace m t → Live p t
  calm : ∀ t m, ¬LockSleep p t m → p.mutexRequest t m = 0
  waiting : ∀ t m, LockSleep p t m → (p.mutexPool m).locked = true

variable {p q : Proc} {t u : Tid} {m n : LockId} {trace events : List Event} {label : Label}

/-- The entries of the matrix are the owners. -/
theorem Audited.allocation_iff (audited : Audited p trace) : p.mutexAllocation t m = 1 ↔ Owner p trace m t := by
  constructor
  · intro entry
    by_contra alone
    have nobody : ¬∃ u, Owner p trace m u := by
      rintro ⟨u, owner⟩
      have column := audited.booked.held m u owner t
      rw [entry] at column
      split at column
      · rename_i same
        exact alone (same ▸ owner)
      · contradiction
    have unused : (p.mutexPool m).locked = false ∨ p.nextMutexId ≤ m.val := by
      by_cases known : m.val < p.nextMutexId
      · apply Or.inl
        rw [← Bool.not_eq_true]
        exact fun taken => nobody (audited.busy m known taken)
      · exact Or.inr (Nat.le_of_not_lt known)
    have column := audited.booked.free m unused t
    rw [entry] at column
    contradiction
  · intro owner
    rw [audited.booked.held m t owner t, if_pos rfl]

/-- The head of the queue of a mutex sleeps in its lock. -/
theorem popped_lockSleep (wf : p.view.Wf) (made : p.Created (.mutex m)) {next : Tid} {ring : Queue Tid}
    (popped : popQueue (p.waitQueue (.mutex m)) = (some next, ring)) : LockSleep p next m := by
  obtain ⟨_, asleep, waits⟩ := popped_facts wf made popped
  refine ⟨asleep, ?_⟩
  cases saved : p.conts next <;> simp_all [Cont.waitId]

/-- Such a label takes a mutex only from its owner. -/
theorem Audited.fair (audited : Audited p trace) (wf : p.view.Wf) (keeps : BooksLabel p label)
    (effect : Micro p label events q) : FairLabel p trace label := by
  cases effect with
  | release runs known unclaimed =>
      rename_i t m
      cases taken : (p.mutexPool m).locked with
      | false => exact Or.inr taken
      | true =>
          rcases keeps runs taken with entry | ⟨next, popped, _⟩
          · exact Or.inl (audited.allocation_iff.mp entry)
          · rw [unclaimed (audited.booked.blocking m known)] at popped
            contradiction
  | handOver runs known blocks popped =>
      rename_i t m next ring
      have sleeps := popped_lockSleep wf ⟨known, blocks⟩ popped
      rcases keeps runs (audited.waiting next m sleeps) with entry | ⟨first, head, entry⟩
      · exact Or.inl (audited.allocation_iff.mp entry)
      · rw [popped] at head
        obtain rfl := Option.some.inj head
        exact Or.inr (audited.allocation_iff.mp entry)
  | leaveSpin idle ready polls free => exact fun _ => absurd polls (audited.booked.unspun _ _ ready)
  | _ => trivial

/-- A live thread stays live until it exits. -/
theorem Micro.live (effect : Micro p label events q) (live : Live p u) (stays : label ≠ .exit u) :
    q.Dead ∨ Live q u := by
  have update {s : Tid} {state : ThreadState} (alive : state ≠ .unused ∧ state ≠ .exited) :
      Function.update p.threads s state u ≠ .unused ∧ Function.update p.threads s state u ≠ .exited := by
    by_cases same : u = s
    · subst same
      simpa using alive
    · simpa [Live, same] using live
  cases effect with
  | report | detect | clearMutexRequest | clearSemRequest | createMutex | createSemaphore | createCondvar | take
  | release | lower => exact Or.inr live
  | preempt | dispatch | poll | leaveSpin | resumeLock | wait | lowerBlock | resumeDown | waitCond | start | handOver
  | signal => exact Or.inr (update (by simp))
  | «raise» runs known free =>
      rename_i t s
      rw [Live, (semaphoreRelease_frame p t s).1]
      exact Or.inr live
  | raiseWake runs known owed popped =>
      rename_i t s next ring
      have alive : Function.update p.threads next .runnable u ≠ .unused ∧
        Function.update p.threads next .runnable u ≠ .exited := update (by simp)
      rw [← (semaphoreRelease_frame p t s).1] at alive
      exact Or.inr alive
  | collect ended =>
      rename_i t
      have other : u ≠ t := by
        rintro rfl
        exact live.2 ended
      exact Or.inr (by simpa [Live, Proc.setThread, other] using live)
  | exit code runs worker =>
      rename_i t
      have other : u ≠ t := by
        rintro rfl
        exact stays rfl
      exact Or.inr (by simpa [Live, Proc.setThread, other] using live)
  | exitProcess => exact Or.inl ⟨rfl, fun _ => rfl⟩

/-- A thread that was inside stays inside until it unlocks or exits. -/
theorem Micro.inside_stays (effect : Micro p label events q) (live : Live p u) (kept : ¬Loses label m u)
    (stays : label ≠ .exit u) (present : inside u m trace = true) : q.Dead ∨ inside u m (trace ++ events) = true := by
  cases effect with
  | release runs known unclaimed =>
      rename_i t n
      have other : ¬(t = u ∧ n = m) := by simpa [Loses] using kept
      exact Or.inr (by simpa [inside_append, holdEvent, present] using not_and_or.mp other)
  | handOver runs known blocks popped =>
      rename_i t n next ring
      have other : ¬(t = u ∧ n = m) := by simpa [Loses] using kept
      exact Or.inr (by simpa [inside_append, holdEvent, present] using not_and_or.mp other)
  | start runs free =>
      rename_i r t
      have other : t ≠ u := by
        rintro rfl
        exact live.1 free
      exact Or.inr (by simp [inside_append, holdEvent, present, other])
  | exit code runs worker =>
      rename_i t
      have other : t ≠ u := by
        rintro rfl
        exact stays rfl
      exact Or.inr (by simp [inside_append, holdEvent, present, other])
  | exitProcess => exact Or.inl ⟨rfl, fun _ => rfl⟩
  | _ => exact Or.inr (by simp [inside_append, holdEvent, present])

/-- A thread that was handed the mutex keeps it until it runs, and then it is inside. -/
theorem Micro.handed_stays (effect : Micro p label events q) (wf : p.view.Wf) (ready : p.threads u = .runnable)
    (handed : p.conts u = .inLock m) : q.Dead ∨ Owner q (trace ++ events) m u := by
  have keep (threads : q.threads u = p.threads u) (conts : q.conts u = p.conts u) : Owner q (trace ++ events) m u :=
    Or.inr ⟨threads.trans ready, conts.trans handed⟩
  have apart {t : Tid} (runs : p.current = some t) : u ≠ t := by
    rintro rfl
    have running : p.threads u = .running := (wf.running u).mp runs
    simp [ready] at running
  have asleep {w : WaitId} {next : Tid} {ring : Queue Tid} (made : p.Created w)
      (popped : popQueue (p.waitQueue w) = (some next, ring)) : u ≠ next := by
    rintro rfl
    have sleeps := (popped_facts wf made popped).2.1
    simp [ready] at sleeps
  cases effect with
  | report | detect | clearMutexRequest | clearSemRequest | createMutex | createSemaphore | createCondvar | take
  | release | lower => exact Or.inr (keep rfl rfl)
  | preempt runs | poll runs | wait runs | lowerBlock runs | waitCond runs =>
      exact Or.inr (keep (Function.update_of_ne (apart runs) ..) (Function.update_of_ne (apart runs) ..))
  | dispatch idle prepared outside =>
      rename_i t
      have other : u ≠ t := by
        rintro rfl
        simp [handed] at outside
      exact Or.inr (keep (Function.update_of_ne other ..) (Function.update_of_ne other ..))
  | leaveSpin idle prepared polls free =>
      rename_i t n
      have other : u ≠ t := by
        rintro rfl
        simp [handed] at polls
      exact Or.inr (keep (Function.update_of_ne other ..) (Function.update_of_ne other ..))
  | resumeDown idle prepared downs =>
      rename_i t s
      have other : u ≠ t := by
        rintro rfl
        simp [handed] at downs
      exact Or.inr (keep (Function.update_of_ne other ..) (Function.update_of_ne other ..))
  | resumeLock idle prepared locks =>
      rename_i t n
      by_cases same : u = t
      · subst same
        rw [handed] at locks
        injection locks with equal
        subst equal
        exact Or.inr (Or.inl (by simp [inside_append, holdEvent]))
      · exact Or.inr (keep (Function.update_of_ne same ..) (Function.update_of_ne same ..))
  | handOver runs known blocks popped =>
      rename_i t n next ring
      have made : p.Created (.mutex n) := ⟨known, blocks⟩
      exact Or.inr (keep (Function.update_of_ne (asleep made popped) ..) rfl)
  | «raise» runs known free =>
      rename_i t s
      obtain ⟨threads, conts, _⟩ := semaphoreRelease_frame p t s
      exact Or.inr (keep (by rw [threads]) (by rw [conts]))
  | raiseWake runs known owed popped =>
      rename_i t s next ring
      obtain ⟨threads, conts, _⟩ := semaphoreRelease_frame p t s
      have made : p.Created (.semaphore s) := known
      apply Or.inr
      apply keep
      · show Function.update (semaphoreRelease p t s).threads next .runnable u = _
        rw [Function.update_of_ne (asleep made popped), threads]
      · show (semaphoreRelease p t s).conts u = _
        rw [conts]
  | signal runs known popped =>
      rename_i c next t ring
      have made : p.Created (.condvar c) := known
      exact Or.inr (keep (Function.update_of_ne (asleep made popped) ..) rfl)
  | start runs free =>
      rename_i r t
      have other : u ≠ t := by
        rintro rfl
        simp [ready] at free
      exact Or.inr (keep (Function.update_of_ne other ..) (Function.update_of_ne other ..))
  | collect ended =>
      rename_i t
      have other : u ≠ t := by
        rintro rfl
        simp [ready] at ended
      exact Or.inr (keep (Function.update_of_ne other ..) rfl)
  | exit code runs worker => exact Or.inr (keep (Function.update_of_ne (apart runs) ..) rfl)
  | exitProcess => exact Or.inl ⟨rfl, fun _ => rfl⟩

/-- An owner stays one until it unlocks or exits. -/
theorem Micro.owner_stays (effect : Micro p label events q) (wf : p.view.Wf) (owner : Owner p trace m u)
    (live : Live p u) (kept : ¬Loses label m u) (stays : label ≠ .exit u) :
    q.Dead ∨ Owner q (trace ++ events) m u := by
  rcases owner with present | ⟨ready, handed⟩
  · rcases effect.inside_stays live kept stays present with dead | still
    · exact Or.inl dead
    · exact Or.inr (Or.inl still)
  · exact effect.handed_stays wf ready handed

/-- A lock that is taken was taken before, or the effect took it. -/
theorem Micro.was_locked (effect : Micro p label events q) (known : m.val < q.nextMutexId)
    (taken : (q.mutexPool m).locked = true) :
    (∃ t, label = .take t m) ∨ m.val < p.nextMutexId ∧ (p.mutexPool m).locked = true ∧ ∀ t, label ≠ .release t m := by
  cases effect with
  | createMutex blocking fresh ring valid sized =>
      rename_i id
      by_cases same : m = id
      · simp [same, Proc.setMutex] at taken
      · rcases (lt_succ_iff fresh).mp known with old | equal
        · exact Or.inr ⟨old, by simpa [Proc.setMutex, same] using taken, by simp⟩
        · exact absurd equal same
  | take runs made free =>
      rename_i t n
      by_cases same : m = n
      · exact Or.inl ⟨t, by rw [same]⟩
      · exact Or.inr ⟨known, by simpa [Proc.setLocked, Proc.setMutex, same] using taken, by simp⟩
  | release runs made unclaimed =>
      rename_i t n
      by_cases same : m = n
      · simp [same, Proc.setLocked, Proc.setMutex] at taken
      · exact Or.inr ⟨known, by simpa [Proc.setLocked, Proc.setMutex, same] using taken, by simp [Ne.symm same]⟩
  | wait runs made busy blocks pushed =>
      rename_i t n ring
      have before : ((p.setWaitQueue (.mutex n) ring).mutexPool m).locked = true := taken
      rw [setWaitQueue_locked] at before
      exact Or.inr ⟨known, before, by simp⟩
  | handOver runs made blocks popped =>
      rename_i t n next ring
      have before : ((p.setWaitQueue (.mutex n) ring).mutexPool m).locked = true := taken
      rw [setWaitQueue_locked] at before
      exact Or.inr ⟨known, before, by simp⟩
  | «raise» runs made free =>
      rename_i t s
      obtain ⟨_, _, pool, next⟩ := semaphoreRelease_frame p t s
      rw [pool] at taken
      rw [next] at known
      exact Or.inr ⟨known, taken, by simp⟩
  | raiseWake runs made owed popped =>
      rename_i t s next ring
      obtain ⟨_, _, pool, count⟩ := semaphoreRelease_frame p t s
      have before : ((semaphoreRelease p t s).mutexPool m).locked = true := taken
      have bound : m.val < (semaphoreRelease p t s).nextMutexId := known
      rw [pool] at before
      rw [count] at bound
      exact Or.inr ⟨bound, before, by simp⟩
  | _ => exact Or.inr ⟨known, taken, by simp⟩

/-- A sleep in `mutex_lock` ends when the mutex is handed over. -/
theorem Micro.lockSleep_stays (effect : Micro p label events q) (wf : p.view.Wf) (sleeps : LockSleep p u n) :
    q.Dead ∨ LockSleep q u n ∨ ∃ giver, label = .handOver giver n u := by
  have keep (threads : q.threads u = p.threads u) (conts : q.conts u = p.conts u) : LockSleep q u n :=
    ⟨threads.trans sleeps.1, conts.trans sleeps.2⟩
  have apart {t : Tid} (runs : p.current = some t) : u ≠ t := by
    rintro rfl
    exact wf.current_awake runs sleeps.1
  have other {t : Tid} {state : ThreadState} (awake : p.threads t = state) (differs : state ≠ .sleeping) : u ≠ t := by
    rintro rfl
    rw [sleeps.1] at awake
    exact differs awake.symm
  have elsewhere {w : WaitId} {next : Tid} {ring : Queue Tid} (made : p.Created w)
      (popped : popQueue (p.waitQueue w) = (some next, ring)) (kind : w ≠ .mutex n) : u ≠ next := by
    rintro rfl
    have waits := (popped_facts wf made popped).2.2
    rw [sleeps.2] at waits
    exact kind (Option.some.inj waits).symm
  cases effect with
  | report | detect | clearMutexRequest | clearSemRequest | createMutex | createSemaphore | createCondvar | take
  | release | lower => exact Or.inr (Or.inl sleeps)
  | preempt runs | poll runs | wait runs | lowerBlock runs | waitCond runs =>
      exact Or.inr (Or.inl (keep (Function.update_of_ne (apart runs) ..) (Function.update_of_ne (apart runs) ..)))
  | dispatch idle ready | leaveSpin idle ready | resumeLock idle ready | resumeDown idle ready =>
      have away := other ready (by simp)
      exact Or.inr (Or.inl (keep (Function.update_of_ne away ..) (Function.update_of_ne away ..)))
  | handOver runs known blocks popped =>
      rename_i t m next ring
      have made : p.Created (.mutex m) := ⟨known, blocks⟩
      by_cases same : n = m
      · subst same
        by_cases woken : u = next
        · exact Or.inr (Or.inr ⟨t, by rw [woken]⟩)
        · exact Or.inr (Or.inl (keep (Function.update_of_ne woken ..) rfl))
      · have away := elsewhere made popped (by simpa using Ne.symm same)
        exact Or.inr (Or.inl (keep (Function.update_of_ne away ..) rfl))
  | «raise» runs known free =>
      rename_i t s
      obtain ⟨threads, conts, _⟩ := semaphoreRelease_frame p t s
      exact Or.inr (Or.inl (keep (by rw [threads]) (by rw [conts])))
  | raiseWake runs known owed popped =>
      rename_i t s next ring
      obtain ⟨threads, conts, _⟩ := semaphoreRelease_frame p t s
      have made : p.Created (.semaphore s) := known
      have away := elsewhere made popped (by simp)
      apply Or.inr
      apply Or.inl
      apply keep
      · show Function.update (semaphoreRelease p t s).threads next .runnable u = _
        rw [Function.update_of_ne away, threads]
      · show (semaphoreRelease p t s).conts u = _
        rw [conts]
  | signal runs known popped =>
      rename_i c next t ring
      have made : p.Created (.condvar c) := known
      have away := elsewhere made popped (by simp)
      exact Or.inr (Or.inl (keep (Function.update_of_ne away ..) rfl))
  | start runs free =>
      have away := other free (by simp)
      exact Or.inr (Or.inl (keep (Function.update_of_ne away ..) (Function.update_of_ne away ..)))
  | collect ended =>
      have away := other ended (by simp)
      exact Or.inr (Or.inl (keep (Function.update_of_ne away ..) rfl))
  | exit code runs worker => exact Or.inr (Or.inl (keep (Function.update_of_ne (apart runs) ..) rfl))
  | exitProcess => exact Or.inl ⟨rfl, fun _ => rfl⟩

/-- A taken lock keeps an owner. -/
theorem Audited.busy_effect (audited : Audited p trace) (wf : p.view.Wf) (keeps : BooksLabel p label)
    (effect : Micro p label events q) (known : m.val < q.nextMutexId) (taken : (q.mutexPool m).locked = true) :
    q.Dead ∨ ∃ t, Owner q (trace ++ events) m t := by
  rcases effect.was_locked known taken with ⟨t, rfl⟩ | ⟨before, held, unreleased⟩
  · cases effect with
    | take => exact Or.inr ⟨t, Or.inl (by simp [inside_append, holdEvent])⟩
  · obtain ⟨t, owner⟩ := audited.busy m before held
    by_cases lost : Loses label m t
    · rcases lost with released | ⟨next, rfl⟩
      · exact absurd released (unreleased t)
      · cases effect with
        | handOver runs made blocks popped =>
            have sleeps := popped_lockSleep wf ⟨made, blocks⟩ popped
            exact Or.inr ⟨next, Or.inr ⟨Function.update_self next _ _, sleeps.2⟩⟩
    · by_cases exits : label = .exit t
      · subst exits
        cases effect with
        | exit code runs worker => exact absurd (audited.allocation_iff.mpr owner) (keeps runs worker m before)
      · rcases effect.owner_stays wf owner (audited.live m t owner) lost exits with dead | still
        · exact Or.inl dead
        · exact Or.inr ⟨t, still⟩

/-- An owner is live. -/
theorem Audited.live_effect (audited : Audited p trace) (wf : p.view.Wf) (effect : Micro p label events q)
    (owner : Owner q (trace ++ events) m t) : q.Dead ∨ Live q t := by
  rcases effect.owner (Or.inr wf) owner with gains | ⟨old, _⟩
  · rcases gains with rfl | rfl | ⟨giver, rfl⟩
    · cases effect with
      | take runs known free => exact Or.inr (running_facts wf runs).1
    · cases effect with
      | leaveSpin idle ready polls free => exact absurd polls (audited.booked.unspun _ _ ready)
    · cases effect with
      | handOver runs known blocks popped => exact Or.inr (by simp [Live, Proc.setThread])
  · by_cases exits : label = .exit t
    · subst exits
      cases effect with
      | exit code runs worker =>
          rcases owner with present | ready
          · simp [inside_append, holdEvent] at present
          · have ended : ThreadState.exited = .runnable := (Function.update_self t _ _).symm.trans ready.1
            contradiction
    · exact effect.live (audited.live m t old) exits

/-- A thread that does not sleep in the lock of a mutex has no request for it. -/
theorem Audited.calm_effect (audited : Audited p trace) (wf : p.view.Wf) (effect : Micro p label events q)
    (awake : ¬LockSleep q t m) : q.Dead ∨ q.mutexRequest t m = 0 := by
  by_cases slept : LockSleep p t m
  · rcases effect.lockSleep_stays wf slept with dead | still | ⟨giver, rfl⟩
    · exact Or.inl dead
    · exact absurd still awake
    · cases effect with
      | handOver => exact Or.inr (Matrix.set_self ..)
  · have before := audited.calm t m slept
    have write (u : Tid) (n : LockId) : p.mutexRequest.set u n 0 t m = 0 := by
      by_cases same : t = u ∧ m = n
      · simp [Matrix.set, same]
      · rw [Matrix.set_of_ne _ _ same, before]
    cases effect with
    | clearMutexRequest | resumeLock | handOver => exact Or.inr (write _ _)
    | leaveSpin idle ready polls free => exact absurd polls (audited.booked.unspun _ _ ready)
    | poll runs known busy spins =>
        rw [audited.booked.blocking _ known] at spins
        contradiction
    | wait runs known busy blocks pushed =>
        rename_i u n ring
        have other : ¬(t = u ∧ m = n) := by
          rintro ⟨rfl, rfl⟩
          exact awake ⟨Function.update_self t _ _, Function.update_self t _ _⟩
        exact Or.inr ((Matrix.set_of_ne _ _ other).trans before)
    | «raise» runs known free =>
        rw [semaphoreRelease_mutexRequest]
        exact Or.inr before
    | raiseWake runs known owed popped =>
        rename_i u s next ring
        apply Or.inr
        show (semaphoreRelease p u s).mutexRequest t m = 0
        rw [semaphoreRelease_mutexRequest, before]
    | _ => exact Or.inr before

/-- A thread sleeps only in the lock of a taken mutex. -/
theorem Audited.waiting_effect (audited : Audited p trace) (wf : p.view.Wf) (effect : Micro p label events q)
    (sleeps : LockSleep q t m) : (q.mutexPool m).locked = true := by
  rcases effect.lockSleep sleeps with old | rfl
  · obtain ⟨w, waits, made, member⟩ := wf.asleep t old.1
    rw [show p.view.conts t = .inLock m from old.2] at waits
    obtain rfl := Option.some.inj waits
    have present : p.Created (.mutex m) := made
    rcases effect.locked present.1 (audited.waiting t m old) with ⟨u, rfl⟩ | taken
    · cases effect with
      | release runs known unclaimed =>
          have empty := (Queue.popQueue_none (wf.rings _ made)).mp (unclaimed present.2)
          have none : (p.view.queues (.mutex m)).toList = [] := empty
          rw [none] at member
          contradiction
    · exact taken
  · cases effect with
    | wait runs known busy blocks pushed => exact (setWaitQueue_locked p (.mutex m) _ m).trans busy

theorem Audited.effect (audited : Audited p trace) (wf : p.view.Wf) (keeps : BooksLabel p label)
    (effect : Micro p label events q) : q.Dead ∨ Audited q (trace ++ events) := by
  by_cases dead : q.Dead
  · exact Or.inl dead
  have fair := audited.fair wf keeps effect
  have blocks (id : LockId) (blocking : Bool) (made : label = .createMutex id blocking) : blocking = true := by
    subst made
    exact keeps
  apply Or.inr
  constructor
  · exact audited.owned.effect (Or.inr wf) fair effect
  · exact audited.booked.effect audited.owned wf fair blocks effect
  · exact fun m known taken => (audited.busy_effect wf keeps effect known taken).resolve_left dead
  · exact fun m t owner => (audited.live_effect wf effect owner).resolve_left dead
  · exact fun t m awake => (audited.calm_effect wf effect awake).resolve_left dead
  · exact fun t m sleeps => audited.waiting_effect wf effect sleeps

theorem Initial.audited (initial : Initial p) : Audited p [] := by
  have watched := initial.watched
  have awake (t : Tid) : p.threads t ≠ .sleeping := by
    by_cases main : t = 0
    · simp [main, initial.main]
    · simp [initial.others t main]
  constructor
  · exact watched.owned
  · exact watched.booked
  · intro m known
    simp [initial.mutexes] at known
  · intro m t owner
    have known := watched.owned.known m t owner
    simp [initial.mutexes] at known
  · intro t m _
    rw [initial.mutexRequest]
  · exact fun t m sleeps => absurd sleeps.1 (awake t)

/-- The invariant makes the books consistent. -/
theorem Audited.consistent (audited : Audited p trace) : Consistent p trace := by
  constructor
  · intro m known
    constructor
    · intro taken
      obtain ⟨t, owner⟩ := audited.busy m known taken
      refine ⟨t, fun u => ?_⟩
      rw [audited.allocation_iff]
      constructor
      · exact fun also => audited.owned.unique m u t also owner
      · rintro rfl
        exact owner
    · rintro ⟨t, entries⟩
      have owner := audited.allocation_iff.mp ((entries t).mpr rfl)
      exact audited.owned.locked m t owner
  · intro m t _ entry
    have owner := audited.allocation_iff.mp entry
    exact ⟨audited.live m t owner, owner⟩
  · intro t unused m
    have gone : ¬Live p t := fun live => live.1 unused
    constructor
    · by_cases held : (p.mutexPool m).locked = true ∧ m.val < p.nextMutexId
      · obtain ⟨u, owner⟩ := audited.busy m held.2 held.1
        have other : t ≠ u := by
          rintro rfl
          exact gone (audited.live m t owner)
        rw [audited.booked.held m u owner t, if_neg other]
      · apply audited.booked.free m
        rw [not_and_or, Bool.not_eq_true, Nat.not_lt] at held
        exact held
    · apply audited.calm t m
      intro sleeps
      rw [sleeps.1] at unused
      contradiction

theorem reached_audited (reached : Reaches step (fun p _ action => CreatesBlocking action ∧ KeepsBooks p action)
    Initial p trace) : p.Dead ∨ p.view.Wf ∧ Audited p trace := by
  apply run_invariant_alive (fun p _ label => BooksLabel p label) Audited _ _ _ reached
  · exact fun p initial => initial.audited
  · exact fun p trace action q sofar label meets caused => booksLabel_of_caused meets.2 meets.1 caused
  · exact fun p trace label events q wf audited keeps effect => audited.effect wf keeps effect

/-- In runs where each unlock is by the owner and no thread exits as an owner, a living process has consistent books. -/
theorem mutex_books_consistent
    (reached : Reaches step (fun p _ action => CreatesBlocking action ∧ KeepsBooks p action) Initial p trace) :
    p.Dead ∨ Consistent p trace := by
  rcases reached_audited reached with dead | ⟨_, audited⟩
  · exact Or.inl dead
  · exact Or.inr audited.consistent

instance (p : Proc) (t : Tid) (m : LockId) : Decidable (UnlockKeeps p t m) := inferInstanceAs (Decidable (_ → _))

instance (p : Proc) (t : Tid) : Decidable (ExitKeeps p t) := inferInstanceAs (Decidable (∀ _, _ → _))

instance : (action : Action) → Decidable action.Exits
  | .exit _ => inferInstanceAs (Decidable True)
  | .schedule _ | .yield | .mutexCreate _ | .mutexLock _ | .mutexUnlock _ | .semaphoreCreate _ | .semaphoreUp _ | .semaphoreDown _
  | .condvarCreate | .condvarSignal _ | .condvarWait _ _ | .enableDeadlockDetect _ | .threadCreate | .waittid _ =>
      inferInstanceAs (Decidable False)

instance : (action : Action) → Decidable (CreatesBlocking action)
  | .mutexCreate blocking => inferInstanceAs (Decidable (blocking ≠ 0))
  | .schedule _ | .yield | .threadCreate | .mutexLock _ | .mutexUnlock _ | .semaphoreCreate _ | .semaphoreUp _ | .semaphoreDown _
  | .condvarCreate | .condvarSignal _ | .condvarWait _ _ | .enableDeadlockDetect _ | .waittid _ | .exit _ =>
      inferInstanceAs (Decidable True)

instance (p : Proc) (action : Action) : Decidable (KeepsBooks p action) :=
  decidable_of_iff ((∀ t m, p.current = some t → action.unlocks p = some m → UnlockKeeps p t m) ∧
    ∀ t, p.current = some t → action.Exits → t ≠ 0 → ExitKeeps p t) ⟨fun ⟨unlock, exit⟩ => ⟨unlock, exit⟩,
      fun keeps => ⟨keeps.unlock, keeps.exit⟩⟩

/-- A mutex is handed over, the old owner exits, and a new thread gets its slot. -/
theorem mutex_books_consistent_run : ∃ p trace,
    Reaches step (fun p _ action => CreatesBlocking action ∧ KeepsBooks p action) Initial p trace ∧
      p.mutexAllocation 0 0 = 1 ∧ p.threads 1 = .runnable ∧ (p.Dead ∨ Consistent p trace) := by
  obtain ⟨p, trace, reached, facts⟩ := replay_witness step
    (fun p _ action => CreatesBlocking action ∧ KeepsBooks p action) Initial
    [.schedule 0, .mutexCreate 1, .threadCreate, .yield, .schedule 1, .mutexLock 0, .yield, .schedule 0, .mutexLock 0,
      .schedule 1, .mutexUnlock 0, .exit 0, .schedule 0, .waittid 1, .threadCreate]
    freshProc freshProc_initial (fun p _ => decide (p.mutexAllocation 0 0 = 1 ∧ p.threads 1 = .runnable))
    (by decide +kernel)
  obtain ⟨entry, started⟩ := of_decide_eq_true facts
  exact ⟨p, trace, reached, entry, started, mutex_books_consistent reached⟩

/-- An unlock for a thread without the entry leaves a free mutex with an entry or a taken one with two. -/
theorem unlock_breaks {after : Proc} {later : List Event} (audited : Audited p trace) (known : m.val < p.nextMutexId)
    (unkept : ¬UnlockKeeps p t m) (allocation : after.mutexAllocation = (mutexUnlock p t m).1.mutexAllocation)
    (locked : (after.mutexPool m).locked = ((mutexUnlock p t m).1.mutexPool m).locked)
    (next : after.nextMutexId = p.nextMutexId) : ¬Consistent after later := by
  intro consistent
  rw [UnlockKeeps, Classical.not_imp, not_or] at unkept
  obtain ⟨taken, foreign, unhanded⟩ := unkept
  obtain ⟨u, owner⟩ := audited.busy m known taken
  have entry : p.mutexAllocation u m = 1 := audited.allocation_iff.mpr owner
  have other : u ≠ t := by
    rintro rfl
    exact foreign entry
  have column := audited.booked.held m u owner
  have books := consistent.taken m (by rwa [next])
  rw [allocation, locked] at books
  cases popped : popQueue (p.waitQueue (.mutex m)) with
  | mk first ring =>
      cases first with
      | none =>
          simp only [mutexUnlock, audited.booked.blocking m known, if_true, Proc.wake, popped] at books
          have free : (((p.setWaitQueue (.mutex m) ring).setLocked m false).mutexPool m).locked = true := by
            apply books.mpr
            refine ⟨u, fun x => ?_⟩
            show p.mutexAllocation.set t m 0 x m = 1 ↔ x = u
            by_cases caller : x = t
            · subst caller
              simp [Ne.symm other]
            · rw [Matrix.set_of_ne _ _ (fun both => caller both.1), column x]
              simp
          simp [Proc.setLocked, Proc.setMutex] at free
      | some head =>
          simp only [mutexUnlock, audited.booked.blocking m known, if_true, Proc.wake, popped] at books
          have apart : u ≠ head := by
            rintro rfl
            exact unhanded ⟨u, by rw [popped], entry⟩
          obtain ⟨v, entries⟩ := books.mp ((setWaitQueue_locked p (.mutex m) ring m).trans taken)
          have given : head = v := (entries head).mp (Matrix.set_self ..)
          have kept : u = v := by
            apply (entries u).mp
            apply (Matrix.set_of_ne _ _ fun both => apart both.1).trans
            exact (Matrix.set_of_ne _ _ fun both => other both.1).trans entry
          exact apart (kept.trans given.symm)

/-- The first step that does not keep the books makes them inconsistent. -/
theorem unkept_breaks {after : Proc} {action : Action}
    (reached : Reaches step (fun p _ action => CreatesBlocking action ∧ KeepsBooks p action) Initial p trace)
    (unkept : ¬KeepsBooks p action) (stepped : step p action = some (after, events)) :
    ¬Consistent after (trace ++ events) := by
  rcases reached_audited reached with dead | ⟨wf, audited⟩
  · refine absurd ⟨fun t m runs => ?_, fun t runs => ?_⟩ unkept
    · simp [dead.1] at runs
    · simp [dead.1] at runs
  by_cases unlocks : ∀ t m, p.current = some t → action.unlocks p = some m → UnlockKeeps p t m
  · have exits : ¬∀ t, p.current = some t → action.Exits → t ≠ 0 → ExitKeeps p t :=
      fun exits => unkept ⟨unlocks, exits⟩
    push Not at exits
    obtain ⟨t, runs, exits, worker, leaves⟩ := exits
    rw [ExitKeeps] at leaves
    push Not at leaves
    obtain ⟨m, known, entry⟩ := leaves
    cases action with
    | exit code =>
        have other : t.val ≠ 0 := fun zero => worker (Fin.ext zero)
        simp only [step, runs, sysCall, exit, other, if_false, Option.some.injEq, Prod.mk.injEq] at stepped
        obtain ⟨rfl, rfl⟩ := stepped
        intro consistent
        have live := (consistent.holder m t known entry).1
        exact live.2 (Function.update_self t _ _)
    | _ => exact absurd exits id
  · push Not at unlocks
    obtain ⟨t, m, runs, unlocks, lost⟩ := unlocks
    cases action with
    | mutexUnlock mutexId =>
        have found : poolIndex p.nextMutexId mutexId = some m := unlocks
        have frame := mutexUnlock_frame (p := p) (t := t) (m := m) rfl
        simp only [step, runs, sysCall, sysMutexUnlock, found, complete, Option.some.injEq, Prod.mk.injEq] at stepped
        obtain ⟨rfl, rfl⟩ := stepped
        exact unlock_breaks audited (poolIndex_lt found) lost rfl rfl frame.2.1
    | condvarWait condId mutexId =>
        have found : poolIndex p.nextMutexId mutexId = some m := by
          rw [Action.unlocks] at unlocks
          split at unlocks
          · exact unlocks
          · contradiction
        cases condvar : poolIndex p.nextCondvarId condId with
        | none => simp [Action.unlocks, condvar] at unlocks
        | some c =>
            have frame := mutexUnlock_frame (p := p) (t := t) (m := m) rfl
            simp only [step, runs, sysCall, sysCondvarWait, found, condvar, condWait] at stepped
            cases pushed : pushQueue ((mutexUnlock p t m).1.waitQueue (.condvar c)) t with
            | error message => simp [Proc.block, pushed, complete] at stepped
            | ok ring =>
                simp only [Proc.block, pushed, complete, Option.some.injEq, Prod.mk.injEq] at stepped
                obtain ⟨rfl, rfl⟩ := stepped
                exact unlock_breaks audited (poolIndex_lt found) lost rfl rfl frame.2.1
    | _ => simp [Action.unlocks] at unlocks

/-- A thread exits inside a mutex, and the thread that gets its slot starts with the entry. -/
theorem exit_leaves_entry : ¬∀ p trace, Reaches step (fun _ _ action => CreatesBlocking action) Initial p trace →
    p.Dead ∨ Consistent p trace := by
  intro claim
  obtain ⟨p, trace, reached, facts⟩ := replay_witness step (fun _ _ action => CreatesBlocking action) Initial
    [.schedule 0, .mutexCreate 1, .threadCreate, .yield, .schedule 1, .mutexLock 0, .exit 0, .schedule 0, .waittid 1]
    freshProc freshProc_initial
    (fun p _ => decide (p.threads 0 = .running ∧ p.threads 1 = .unused ∧ p.mutexAllocation 1 0 = 1)) (by decide +kernel)
  obtain ⟨running, free, entry⟩ := of_decide_eq_true facts
  rcases claim p trace reached with dead | consistent
  · rw [dead.2] at running
    contradiction
  · rw [(consistent.fresh 1 free 0).1] at entry
    contradiction

end BtbuOs.Sync
