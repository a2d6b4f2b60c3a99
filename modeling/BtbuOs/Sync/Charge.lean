import BtbuOs.Sync.Starve

namespace BtbuOs.Sync

open Machine

/-- The thread polls a spin mutex. -/
def Polls (p : Proc) (t : Tid) (m : LockId) : Prop := p.threads t = .runnable ∧ p.conts t = .spinning m

/-- The thread waits for a mutex, asleep or polling. -/
def Held (p : Proc) (t : Tid) (m : LockId) : Prop := LockSleep p t m ∨ Polls p t m

variable {p q : Proc} {t u : Tid} {m n : LockId} {trace events : List Event} {label : Label}

/-- A thread polls until it leaves the loop. -/
theorem Micro.polls_stays (effect : Micro p label events q) (wf : p.view.Wf) (polls : Polls p u n) :
    q.Dead ∨ Polls q u n ∨ label = .leaveSpin u n := by
  have keep (threads : q.threads u = p.threads u) (conts : q.conts u = p.conts u) : Polls q u n :=
    ⟨threads.trans polls.1, conts.trans polls.2⟩
  have other {t : Tid} {state : ThreadState} (known : p.threads t = state) (differs : state ≠ .runnable) : u ≠ t := by
    rintro rfl
    rw [polls.1] at known
    exact differs known.symm
  have apart {t : Tid} (runs : p.current = some t) : u ≠ t := other ((wf.running t).mp runs) (by simp)
  have asleep {w : WaitId} {next : Tid} {ring : Queue Tid} (made : p.Created w)
      (popped : popQueue (p.waitQueue w) = (some next, ring)) : u ≠ next :=
    other (popped_facts wf made popped).2.1 (by simp)
  have elsewhere {t : Tid} {cont : Cont} (saved : p.conts t = cont) (differs : cont ≠ .spinning n) : u ≠ t := by
    rintro rfl
    rw [polls.2] at saved
    exact differs saved.symm
  cases effect with
  | report | detect | clearMutexRequest | clearSemRequest | createMutex | createSemaphore | createCondvar | take
  | release | lower => exact Or.inr (Or.inl polls)
  | preempt runs | poll runs | wait runs | lowerBlock runs | waitCond runs =>
      exact Or.inr (Or.inl (keep (Function.update_of_ne (apart runs) ..) (Function.update_of_ne (apart runs) ..)))
  | dispatch idle ready outside =>
      rename_i t
      have away : u ≠ t := by
        rcases outside with user | ⟨c, m, waits⟩
        · exact elsewhere user (by simp)
        · exact elsewhere waits (by simp)
      exact Or.inr (Or.inl (keep (Function.update_of_ne away ..) (Function.update_of_ne away ..)))
  | leaveSpin idle ready saved free =>
      rename_i t m
      by_cases same : u = t
      · subst same
        have equal : Cont.spinning m = .spinning n := saved.symm.trans polls.2
        injection equal with mutex
        exact Or.inr (Or.inr (by rw [mutex]))
      · exact Or.inr (Or.inl (keep (Function.update_of_ne same ..) (Function.update_of_ne same ..)))
  | resumeLock idle ready saved | resumeDown idle ready saved =>
      have away := elsewhere saved (by simp)
      exact Or.inr (Or.inl (keep (Function.update_of_ne away ..) (Function.update_of_ne away ..)))
  | handOver runs known blocks popped =>
      rename_i t m next ring
      have made : p.Created (.mutex m) := ⟨known, blocks⟩
      exact Or.inr (Or.inl (keep (Function.update_of_ne (asleep made popped) ..) rfl))
  | «raise» runs known free =>
      rename_i t s
      obtain ⟨threads, conts, _⟩ := semaphoreRelease_frame p t s
      exact Or.inr (Or.inl (keep (by rw [threads]) (by rw [conts])))
  | raiseWake runs known owed popped =>
      rename_i t s next ring
      obtain ⟨threads, conts, _⟩ := semaphoreRelease_frame p t s
      have made : p.Created (.semaphore s) := known
      apply Or.inr
      apply Or.inl
      apply keep
      · show Function.update (semaphoreRelease p t s).threads next .runnable u = _
        rw [Function.update_of_ne (asleep made popped), threads]
      · show (semaphoreRelease p t s).conts u = _
        rw [conts]
  | signal runs known popped =>
      rename_i c next t ring
      have made : p.Created (.condvar c) := known
      exact Or.inr (Or.inl (keep (Function.update_of_ne (asleep made popped) ..) rfl))
  | start runs free =>
      have away := other free (by simp)
      exact Or.inr (Or.inl (keep (Function.update_of_ne away ..) (Function.update_of_ne away ..)))
  | collect ended =>
      have away := other ended (by simp)
      exact Or.inr (Or.inl (keep (Function.update_of_ne away ..) rfl))
  | exit code runs worker => exact Or.inr (Or.inl (keep (Function.update_of_ne (apart runs) ..) rfl))
  | exitProcess => exact Or.inl ⟨rfl, fun _ => rfl⟩

/-- An entry of a matrix after the write of another or the same one. -/
theorem Matrix.set_cases (matrix : Matrix) (t : Tid) (id : LockId) (value : Int) (u : Tid) (n : LockId) :
    (u = t ∧ n = id) ∧ matrix.set t id value u n = value ∨
      ¬(u = t ∧ n = id) ∧ matrix.set t id value u n = matrix u n := by
  by_cases same : u = t ∧ n = id
  · exact Or.inl ⟨same, if_pos same⟩
  · exact Or.inr ⟨same, if_neg same⟩

/-- An effect that takes the entry of a thread takes the mutex, and one that gives the mutex gives the entry. -/
theorem Micro.mutexAllocation (effect : Micro p label events q) (u : Tid) (n : LockId) :
    (Gains label n u → q.mutexAllocation u n = 1) ∧
      (q.mutexAllocation u n = p.mutexAllocation u n ∨ q.mutexAllocation u n = 1 ∨
        q.mutexAllocation u n = 0 ∧ Loses label n u) := by
  have given (t : Tid) (m : LockId) : p.mutexAllocation.set t m 1 u n = p.mutexAllocation u n ∨
      p.mutexAllocation.set t m 1 u n = 1 ∨ p.mutexAllocation.set t m 1 u n = 0 ∧ Loses label n u := by
    rcases p.mutexAllocation.set_cases t m 1 u n with ⟨_, written⟩ | ⟨_, kept⟩
    · exact Or.inr (Or.inl written)
    · exact Or.inl kept
  cases effect with
  | take runs known free =>
      rename_i t m
      refine ⟨fun gains => ?_, given t m⟩
      obtain ⟨rfl, rfl⟩ : t = u ∧ m = n := by simpa [Gains] using gains
      exact Matrix.set_self ..
  | leaveSpin idle ready saved free =>
      rename_i t m
      refine ⟨fun gains => ?_, given t m⟩
      obtain ⟨rfl, rfl⟩ : t = u ∧ m = n := by simpa [Gains] using gains
      exact Matrix.set_self ..
  | resumeLock idle ready saved =>
      rename_i t m
      exact ⟨by simp [Gains], given t m⟩
  | release runs known unclaimed =>
      rename_i t m
      refine ⟨by simp [Gains], ?_⟩
      rcases p.mutexAllocation.set_cases t m 0 u n with ⟨⟨rfl, rfl⟩, written⟩ | ⟨_, kept⟩
      · exact Or.inr (Or.inr ⟨written, Or.inl rfl⟩)
      · exact Or.inl kept
  | handOver runs known blocks popped =>
      rename_i t m next ring
      rcases (p.mutexAllocation.set t m 0).set_cases next m 1 u n with ⟨_, written⟩ | ⟨other, kept⟩
      · exact ⟨fun _ => written, Or.inr (Or.inl written)⟩
      · refine ⟨fun gains => ?_, ?_⟩
        · have same : m = n ∧ next = u := by simpa [Gains] using gains
          exact absurd ⟨same.2.symm, same.1.symm⟩ other
        · rcases p.mutexAllocation.set_cases t m 0 u n with ⟨⟨rfl, rfl⟩, written⟩ | ⟨_, before⟩
          · exact Or.inr (Or.inr ⟨kept.trans written, Or.inr ⟨next, rfl⟩⟩)
          · exact Or.inl (kept.trans before)
  | «raise» runs known free =>
      rename_i t s
      rw [semaphoreRelease_mutexAllocation]
      exact ⟨by simp [Gains], Or.inl rfl⟩
  | raiseWake runs known owed popped =>
      rename_i t s next ring
      have same : (semaphoreRelease p t s).mutexAllocation = p.mutexAllocation := semaphoreRelease_mutexAllocation p t s
      exact ⟨by simp [Gains], Or.inl (congrFun (congrFun same u) n)⟩
  | _ => exact ⟨by simp [Gains], Or.inl rfl⟩

theorem Micro.semAllocation_nonneg (effect : Micro p label events q) (nonneg : ∀ t s, 0 ≤ p.semAllocation t s) (u : Tid)
    (s : LockId) : 0 ≤ q.semAllocation u s := by
  have released (t : Tid) (id : LockId) (u : Tid) (s : LockId) : 0 ≤ (semaphoreRelease p t id).semAllocation u s := by
    rw [semaphoreRelease_allocation]
    split
    · rename_i positive
      omega
    · exact nonneg u s
  have grown {matrix : Matrix} (before : ∀ t s, 0 ≤ matrix t s) (t : Tid) (id : LockId) :
      0 ≤ matrix.set t id (matrix t id + 1) u s := by
    rcases matrix.set_cases t id (matrix t id + 1) u s with ⟨_, written⟩ | ⟨_, kept⟩
    · rw [written]
      exact Int.add_nonneg (before t id) Int.one_nonneg
    · rw [kept]
      exact before u s
  cases effect with
  | lower | resumeDown => exact grown nonneg _ _
  | «raise» => exact released _ _ u s
  | raiseWake => exact grown (released _ _) _ _
  | _ => exact nonneg u s

/-- In every run the books charge each owner, and only a thread that waits has a request. -/
structure Charged (p : Proc) (trace : List Event) : Prop where
  solvent : Solvent p
  owner : ∀ m t, Owner p trace m t → p.mutexAllocation t m = 1
  live : ∀ m t, Owner p trace m t → Live p t
  request : ∀ t m, p.mutexRequest t m = 0 ∨ p.mutexRequest t m = 1 ∧ Held p t m

/-- An owner is live. -/
theorem Charged.live_effect (charged : Charged p trace) (wf : p.view.Wf) (effect : Micro p label events q)
    (owner : Owner q (trace ++ events) m t) : q.Dead ∨ Live q t := by
  rcases effect.owner (Or.inr wf) owner with gains | ⟨old, _⟩
  · rcases gains with rfl | rfl | ⟨giver, rfl⟩
    · cases effect with
      | take runs known free => exact Or.inr (running_facts wf runs).1
    · cases effect with
      | leaveSpin idle ready polls free => exact Or.inr (by simp [Live, Proc.enter, Proc.setThread, Proc.setCont])
    · cases effect with
      | handOver runs known blocks popped => exact Or.inr (by simp [Live, Proc.setThread])
  · by_cases exits : label = .exit t
    · subst exits
      cases effect with
      | exit code runs worker =>
          rcases owner with present | ready
          · simp [inside_append, holdEvent] at present
          · have ended : ThreadState.exited = .runnable := (Function.update_self t _ _).symm.trans ready.1
            contradiction
    · exact effect.live (charged.live m t old) exits

/-- A request is written by a thread that starts to wait, and cleared by the effect that ends the wait. -/
theorem Micro.mutexRequest (effect : Micro p label events q) (u : Tid) (n : LockId) :
    (label = .leaveSpin u n ∨ (∃ giver, label = .handOver giver n u) → q.mutexRequest u n = 0) ∧
      (q.mutexRequest u n = p.mutexRequest u n ∨ q.mutexRequest u n = 0 ∨ q.mutexRequest u n = 1 ∧ Held q u n) := by
  have cleared (t : Tid) (m : LockId) : p.mutexRequest.set t m 0 u n = p.mutexRequest u n ∨
      p.mutexRequest.set t m 0 u n = 0 ∨ p.mutexRequest.set t m 0 u n = 1 ∧ Held q u n := by
    rcases p.mutexRequest.set_cases t m 0 u n with ⟨_, written⟩ | ⟨_, kept⟩
    · exact Or.inr (Or.inl written)
    · exact Or.inl kept
  cases effect with
  | clearMutexRequest runs | resumeLock idle ready saved => exact ⟨by simp, cleared _ _⟩
  | leaveSpin idle ready saved free =>
      rename_i t m
      refine ⟨fun ends => ?_, cleared t m⟩
      obtain ⟨rfl, rfl⟩ : t = u ∧ m = n := by simpa using ends
      exact Matrix.set_self ..
  | handOver runs known blocks popped =>
      rename_i t m next ring
      refine ⟨fun ends => ?_, cleared next m⟩
      obtain ⟨rfl, rfl⟩ : m = n ∧ next = u := by simpa using ends
      exact Matrix.set_self ..
  | poll runs known busy spins =>
      rename_i t m
      refine ⟨by simp, ?_⟩
      rcases p.mutexRequest.set_cases t m 1 u n with ⟨⟨rfl, rfl⟩, written⟩ | ⟨_, kept⟩
      · have waits : Polls ({ p with mutexRequest := p.mutexRequest.set u n 1 }.yield u (.spinning n)) u n :=
          ⟨Function.update_self u _ _, Function.update_self u _ _⟩
        exact Or.inr (Or.inr ⟨written, Or.inr waits⟩)
      · exact Or.inl kept
  | wait runs known busy blocks pushed =>
      rename_i t m ring
      refine ⟨by simp, ?_⟩
      rcases p.mutexRequest.set_cases t m 1 u n with ⟨⟨rfl, rfl⟩, written⟩ | ⟨_, kept⟩
      · exact Or.inr (Or.inr ⟨written, Or.inl ⟨Function.update_self u _ _, Function.update_self u _ _⟩⟩)
      · exact Or.inl kept
  | «raise» runs known free =>
      rename_i t s
      rw [semaphoreRelease_mutexRequest]
      exact ⟨by simp, Or.inl rfl⟩
  | raiseWake runs known owed popped =>
      rename_i t s next ring
      have same : (semaphoreRelease p t s).mutexRequest = p.mutexRequest := semaphoreRelease_mutexRequest p t s
      exact ⟨by simp, Or.inl (congrFun (congrFun same u) n)⟩
  | _ => exact ⟨by simp, Or.inl rfl⟩

/-- A request that stays has a thread that still waits. -/
theorem Charged.request_effect (charged : Charged p trace) (wf : p.view.Wf) (effect : Micro p label events q) (u : Tid)
    (n : LockId) : q.Dead ∨ q.mutexRequest u n = 0 ∨ q.mutexRequest u n = 1 ∧ Held q u n := by
  obtain ⟨ends, written⟩ := effect.mutexRequest u n
  rcases charged.request u n with zero | ⟨one, waits⟩
  · rcases written with same | after
    · exact Or.inr (Or.inl (same.trans zero))
    · exact Or.inr after
  · have stays : q.Dead ∨ Held q u n ∨ q.mutexRequest u n = 0 := by
      rcases waits with sleeps | polls
      · rcases effect.lockSleep_stays wf sleeps with dead | still | given
        · exact Or.inl dead
        · exact Or.inr (Or.inl (Or.inl still))
        · exact Or.inr (Or.inr (ends (Or.inr given)))
      · rcases effect.polls_stays wf polls with dead | still | leaves
        · exact Or.inl dead
        · exact Or.inr (Or.inl (Or.inr still))
        · exact Or.inr (Or.inr (ends (Or.inl leaves)))
    rcases stays with dead | still | zero
    · exact Or.inl dead
    · rcases written with same | after
      · exact Or.inr (Or.inr ⟨same.trans one, still⟩)
      · exact Or.inr after
    · exact Or.inr (Or.inl zero)

theorem Charged.effect (charged : Charged p trace) (wf : p.view.Wf) (effect : Micro p label events q) :
    q.Dead ∨ Charged q (trace ++ events) := by
  by_cases dead : q.Dead
  · exact Or.inl dead
  apply Or.inr
  constructor
  · constructor
    · intro t m
      rcases (effect.mutexAllocation t m).2 with same | one | ⟨zero, _⟩
      · exact same ▸ charged.solvent.mutex t m
      · omega
      · omega
    · exact effect.semAllocation_nonneg charged.solvent.sem
  · intro m t owner
    rcases effect.owner (Or.inr wf) owner with gains | ⟨old, kept⟩
    · exact (effect.mutexAllocation t m).1 gains
    · rcases (effect.mutexAllocation t m).2 with same | one | ⟨_, lost⟩
      · exact same.trans (charged.owner m t old)
      · exact one
      · exact absurd lost kept
  · exact fun m t owner => (charged.live_effect wf effect owner).resolve_left dead
  · exact fun t m => (charged.request_effect wf effect t m).resolve_left dead

theorem Initial.charged (initial : Initial p) : Charged p [] := by
  have owned := initial.owned
  have nobody (m : LockId) (t : Tid) : ¬Owner p [] m t := by
    intro owner
    have known := owned.known m t owner
    simp [initial.mutexes] at known
  constructor
  · exact ⟨fun t m => by rw [initial.mutexAllocation], fun t s => by rw [initial.semAllocation]⟩
  · exact fun m t owner => absurd owner (nobody m t)
  · exact fun m t owner => absurd owner (nobody m t)
  · intro t m
    rw [initial.mutexRequest]
    exact Or.inl rfl

/-- The books are charged in every state of every run. -/
theorem reached_charged {guard : Proc → List Event → Action → Prop} (reached : Reaches step guard Initial p trace) :
    p.Dead ∨ p.view.Wf ∧ Charged p trace := by
  apply run_invariant_alive (fun _ _ _ => True) Charged (fun p initial => initial.charged) _ _ reached
  · exact fun _ _ _ _ _ _ _ _ => trivial
  · exact fun p trace label events q wf charged _ effect => charged.effect wf effect

end BtbuOs.Sync
