import BtbuOs.Sync.Charge
import BtbuOs.Sync.Wakeups

namespace BtbuOs.Sync

open Machine

/-- Every thread of the group waits for a taken mutex that belongs to nobody outside the group. -/
def Doomed (group : Tid → Prop) (p : Proc) (trace : List Event) : Prop :=
  ∀ u, group u → ∃ n : LockId, n.val < p.nextMutexId ∧ (p.mutexPool n).locked = true ∧ Held p u n ∧
    ∀ v, Owner p trace n v → group v

/-- No thread of the group runs again in any run whose threads unlock only what they are inside of. -/
def Stopped (group : Tid → Prop) (p : Proc) (trace : List Event) : Prop :=
  ∀ q later, Reaches step (fun q later action => Disciplined q (trace ++ later) action) (fun q => q = p) q later →
    ∀ u, group u → q.current ≠ some u

/-- The labels that the discipline admits. -/
def OwnUnlocks (p : Proc) (trace : List Event) : Label → Prop
  | .release t m | .handOver t m _ => p.current = some t → inside t m trace = true
  | _ => True

variable {p q : Proc} {t u : Tid} {m n : LockId} {trace events : List Event} {label : Label} {group : Tid → Prop}

/-- A thread that waits for a mutex neither runs nor owns what it waits for. -/
theorem Held.not_running (held : Held p u n) (wf : p.view.Wf) : p.current ≠ some u := by
  intro runs
  have running : p.threads u = .running := (wf.running u).mp runs
  rcases held with sleeps | polls
  · have asleep := sleeps.1
    simp [running] at asleep
  · have ready := polls.1
    simp [running] at ready

theorem Held.known (held : Held p u n) (wf : p.view.Wf) : n.val < p.nextMutexId := by
  rcases held with sleeps | polls
  · have names := wf.named u (Or.inl sleeps.1)
    rw [show p.view.conts u = .inLock n from sleeps.2] at names
    exact wf.known n names
  · have names := wf.named u (Or.inr polls.1)
    rw [show p.view.conts u = .spinning n from polls.2] at names
    exact names

/-- Nobody who runs is inside a mutex that a doomed thread waits for. -/
theorem Doomed.not_inside (doomed : Doomed group p trace) (wf : p.view.Wf) (runs : p.current = some t)
    (owners : ∀ v, Owner p trace n v → group v) : inside t n trace = false := by
  rw [← Bool.not_eq_true]
  intro present
  obtain ⟨k, _, _, held, _⟩ := doomed t (owners t (Or.inl present))
  exact held.not_running wf runs

/-- No effect frees a doomed group. -/
theorem Doomed.effect (doomed : Doomed group p trace) (wf : p.view.Wf) (own : OwnUnlocks p trace label)
    (effect : Micro p label events q) : q.Dead ∨ Doomed group q (trace ++ events) := by
  by_cases dead : q.Dead
  · exact Or.inl dead
  apply Or.inr
  intro u member
  obtain ⟨n, known, taken, held, owners⟩ := doomed u member
  have given (giver : Tid) (v : Tid) : label ≠ .handOver giver n v := by
    rintro rfl
    cases effect with
    | handOver runs made blocks popped =>
        have absent := doomed.not_inside wf runs owners
        rw [own runs] at absent
        contradiction
  have left (v : Tid) : label ≠ .leaveSpin v n := by
    rintro rfl
    cases effect with
    | leaveSpin idle ready saved free =>
        rw [taken] at free
        contradiction
  refine ⟨n, Nat.lt_of_lt_of_le known effect.created, ?_, ?_, ?_⟩
  · rcases effect.locked known taken with ⟨t, rfl⟩ | still
    · cases effect with
      | release runs made unclaimed =>
          have absent := doomed.not_inside wf runs owners
          rw [own runs] at absent
          contradiction
    · exact still
  · rcases held with sleeps | polls
    · rcases effect.lockSleep_stays wf sleeps with gone | still | ⟨giver, handed⟩
      · exact absurd gone dead
      · exact Or.inl still
      · exact absurd handed (given giver u)
    · rcases effect.polls_stays wf polls with gone | still | leaves
      · exact absurd gone dead
      · exact Or.inr still
      · exact absurd leaves (left u)
  · intro v owner
    rcases effect.owner (Or.inr wf) owner with gains | ⟨old, _⟩
    · rcases gains with rfl | leaves | ⟨giver, handed⟩
      · cases effect with
        | take runs made free =>
            rw [taken] at free
            contradiction
      · exact absurd leaves (left v)
      · exact absurd handed (given giver v)
    · exact owners v old

theorem ownUnlocks_of_caused {sofar : List Event} {action : Action} (disciplined : Disciplined p trace action)
    (caused : Caused p trace action q sofar label) : OwnUnlocks q sofar label := by
  cases label with
  | release t m | handOver t m next =>
      obtain ⟨rfl, rfl, unlocks⟩ := caused
      exact fun runs => disciplined t m runs unlocks
  | _ => trivial

/-- A doomed group never runs again. -/
theorem Doomed.stopped (doomed : Doomed group p trace) (wf : p.view.Wf) : Stopped group p trace := by
  intro q later reached u member
  have kept : q.Wf ∧ (q.Dead ∨ Doomed group q (trace ++ later)) := by
    apply reached.invariant fun q later => q.Wf ∧ (q.Dead ∨ Doomed group q (trace ++ later))
    · rintro _ rfl
      rw [List.append_nil]
      exact ⟨Or.inr wf, Or.inr doomed⟩
    · intro q later action after events before disciplined stepped
      have path : Path (Caused q (trace ++ later) action) q (trace ++ later) after (trace ++ later ++ events) :=
        step_path before.1 stepped
      rw [← List.append_assoc]
      apply path.invariant fun q sofar => q.Wf ∧ (q.Dead ∨ Doomed group q sofar)
      · intro r sofar label emitted next ih caused effect
        refine ⟨effect.wf ih.1, ?_⟩
        rcases ih with ⟨gone | wf, dead | doomed⟩
        · exact Or.inl (effect.dead gone)
        · exact Or.inl (effect.dead gone)
        · exact Or.inl (effect.dead dead)
        · exact doomed.effect wf (ownUnlocks_of_caused disciplined caused) effect
      · exact before
  rcases kept with ⟨gone | wf, dead | doomed⟩
  · simp [gone.1]
  · simp [gone.1]
  · simp [dead.1]
  · obtain ⟨n, _, _, held, _⟩ := doomed u member
    exact held.not_running wf

/-- The process when the detection runs for a lock of the mutex. -/
def requesting (p : Proc) (t : Tid) (m : LockId) : Proc := { p with mutexRequest := p.mutexRequest.set t m 1 }

/-- The books have a group that starves on mutexes alone, with the caller in it, if they have a starving group at all. -/
def OwnDeadlock (p : Proc) (t : Tid) (m : LockId) : Prop :=
  (∃ group, (books (requesting p t m)).Starving group) → ∃ group, (books (requesting p t m)).Starving group ∧ t ∈ group ∧
    ∀ u ∈ group, ∃ n, (books (requesting p t m)).supply group (.inl n) < (requesting p t m).mutexRequest u n

/-- The call takes the mutex and returns 0. -/
def LocksAtOnce (p : Proc) (t : Tid) (mutexId : Int) (m : LockId) : Prop :=
  ∃ after, step p (.mutexLock mutexId) = some (after, [.locked t m, .returned t 0]) ∧ (after.mutexPool m).locked = true

def Refused (p : Proc) (t : Tid) (mutexId : Int) : Prop :=
  ∃ after, step p (.mutexLock mutexId) = some (after, [.returned t deadlockCode])

/-- Once the caller waits, it belongs to a group of threads that never run again. -/
def Deadlocks (p : Proc) (trace : List Event) (t : Tid) (m : LockId) : Prop :=
  ∃ waiting, mutexLock p t m = .ok (waiting, []) ∧ ∃ group : Tid → Prop, group t ∧ Stopped group waiting trace

section Call

variable {mutexId : Int}

theorem step_mutexLock (runs : p.current = some t) (enabled : p.deadlockDetectEnable = true)
    (found : poolIndex p.nextMutexId mutexId = some m) : step p (.mutexLock mutexId) =
      if deadlockDetect (requesting p t m) then
        some ({ p with mutexRequest := p.mutexRequest.set t m 0 }, [.returned t deadlockCode])
      else complete t 0 (mutexLock { p with mutexRequest := p.mutexRequest.set t m 0 } t m) := by
  simp only [step, runs, sysCall, sysMutexLock, found]
  rw [if_pos enabled]
  rfl

theorem mutexLock_free (free : (p.mutexPool m).locked = false) : mutexLock p t m =
    .ok ({ p.setLocked m true with mutexAllocation := p.mutexAllocation.set t m 1 }, [.locked t m]) :=
  if_pos free

theorem mutexLock_waits (taken : (p.mutexPool m).locked = true) (blocks : (p.mutexPool m).blocking = true)
    {ring : Queue Tid} (pushed : pushQueue (p.waitQueue (.mutex m)) t = .ok ring) : mutexLock p t m =
    .ok ({ ((p.setWaitQueue (.mutex m) ring).setThread t .sleeping).sched t (.inLock m) with
      mutexRequest := p.mutexRequest.set t m 1 }, []) := by
  simp only [mutexLock, taken, blocks, Bool.true_eq_false, if_false, Proc.block, pushed]
  rfl

/-- A detection that passes lets the caller take a free mutex. -/
theorem locksAtOnce_of_safe (runs : p.current = some t) (enabled : p.deadlockDetectEnable = true)
    (found : poolIndex p.nextMutexId mutexId = some m) (free : (p.mutexPool m).locked = false)
    (safe : deadlockDetect (requesting p t m) = false) : LocksAtOnce p t mutexId m := by
  have passes : ¬deadlockDetect (requesting p t m) = true := (Bool.not_eq_true _).mpr safe
  have free : (({ p with mutexRequest := p.mutexRequest.set t m 0 } : Proc).mutexPool m).locked = false := free
  unfold LocksAtOnce
  rw [step_mutexLock runs enabled found, if_neg passes, mutexLock_free free]
  exact ⟨_, congrArg some (Prod.ext rfl (if_pos runs)), by simp [Proc.setLocked, Proc.setMutex]⟩

/-- A running thread requests nothing. -/
theorem Charged.calm (charged : Charged p trace) (wf : p.view.Wf) (runs : p.current = some t) (n : LockId) :
    p.mutexRequest t n = 0 := by
  rcases charged.request t n with zero | ⟨_, held⟩
  · exact zero
  · exact absurd runs (held.not_running wf)

theorem Charged.requesting_solvent (charged : Charged p trace) : Solvent (requesting p t m) :=
  ⟨charged.solvent.mutex, charged.solvent.sem⟩

/-- A mutex that is short is taken, and only threads of the group hold it. -/
theorem spent_of_short (threads : Finset Tid) (n : LockId) (solvent : Solvent p)
    (short : (books p).supply threads (.inl n) ≤ 0) :
    (p.mutexPool n).locked = true ∧ ∀ v, Live p v → v ∉ threads → p.mutexAllocation v n ≤ 0 := by
  have free : 0 ≤ (books p).available (.inl n) := by
    show 0 ≤ if (p.mutexPool n).locked then (0 : Int) else 1
    split <;> decide
  constructor
  · by_contra unlocked
    have one : (books p).available (.inl n) = 1 := if_neg unlocked
    have bound := (Banker.available_le_supply solvent.books (Sum.inl n)).trans short
    rw [one] at bound
    contradiction
  · intro v live outside
    exact Banker.allocation_of_spent solvent.books free short (mem_books_live.mpr live) outside

/-- The requests of the caller before and after the one that the detection adds. -/
theorem requesting_cases (charged : Charged p trace) (wf : p.view.Wf) (runs : p.current = some t) (u : Tid) (n : LockId) :
    (requesting p t m).mutexRequest u n = 0 ∨ (requesting p t m).mutexRequest u n = 1 ∧ (u = t ∧ n = m ∨ u ≠ t ∧ Held p u n) := by
  rcases p.mutexRequest.set_cases t m 1 u n with ⟨same, written⟩ | ⟨_, kept⟩
  · exact Or.inr ⟨written, Or.inl same⟩
  · by_cases caller : u = t
    · subst caller
      exact Or.inl (kept.trans (charged.calm wf runs n))
    · rcases charged.request u n with zero | ⟨one, held⟩
      · exact Or.inl (kept.trans zero)
      · exact Or.inr ⟨kept.trans one, Or.inr ⟨caller, held⟩⟩

/-- A thread that is short of a mutex waits for one that is taken and belongs to the group, or it is the caller. -/
theorem Charged.short_cases (charged : Charged p trace) (wf : p.view.Wf) (runs : p.current = some t) {threads : Finset Tid}
    {u : Tid} {n : LockId}
    (short : (books (requesting p t m)).supply threads (.inl n) < (requesting p t m).mutexRequest u n) :
    (u = t ∧ n = m ∨ u ≠ t ∧ Held p u n) ∧ (p.mutexPool n).locked = true ∧ ∀ v, Owner p trace n v → v ∈ threads := by
  have solvent : Solvent (requesting p t m) := charged.requesting_solvent
  have free : 0 ≤ (books (requesting p t m)).available (.inl n) := by
    show 0 ≤ if (p.mutexPool n).locked then (0 : Int) else 1
    split <;> decide
  have least : 0 ≤ (books (requesting p t m)).supply threads (.inl n) :=
    free.trans (Banker.available_le_supply solvent.books (Sum.inl n))
  rcases requesting_cases (m := m) charged wf runs u n with zero | ⟨one, waits⟩
  · omega
  · obtain ⟨taken, outside⟩ := spent_of_short threads n solvent (by omega)
    refine ⟨waits, taken, fun v owner => ?_⟩
    by_contra absent
    have entry := charged.owner n v owner
    have nothing : p.mutexAllocation v n ≤ 0 := outside v (charged.live n v owner) absent
    omega

/-- A group that starves on mutexes alone is doomed once its caller waits. -/
theorem Charged.doomed (charged : Charged p trace) (wf : p.view.Wf) (runs : p.current = some t) {threads : Finset Tid}
    (short : ∀ u ∈ threads, ∃ n, (books (requesting p t m)).supply threads (.inl n) < (requesting p t m).mutexRequest u n)
    (effect : Micro p (.wait t m) events q) : q.view.Wf ∧ Doomed (· ∈ threads) q (trace ++ events) := by
  have caller : LockSleep q t m := by
    cases effect with
    | wait => exact ⟨Function.update_self t _ _, Function.update_self t _ _⟩
  have alive : ¬q.Dead := by
    intro dead
    have gone := caller.1.symm.trans (dead.2 t)
    contradiction
  refine ⟨(effect.view_wf wf).resolve_left alive, ?_⟩
  intro u member
  obtain ⟨n, less⟩ := short u member
  obtain ⟨waits, taken, owners⟩ := charged.short_cases wf runs less
  have held : Held q u n ∧ n.val < p.nextMutexId := by
    rcases waits with ⟨rfl, rfl⟩ | ⟨_, waited⟩
    · cases effect with
      | wait _ known => exact ⟨Or.inl caller, known⟩
    · refine ⟨?_, waited.known wf⟩
      rcases waited with sleeps | polls
      · rcases effect.lockSleep_stays wf sleeps with dead | still | ⟨giver, handed⟩
        · exact absurd dead alive
        · exact Or.inl still
        · contradiction
      · rcases effect.polls_stays wf polls with dead | still | leaves
        · exact absurd dead alive
        · exact Or.inr still
        · contradiction
  refine ⟨n, Nat.lt_of_lt_of_le held.2 effect.created, ?_, held.1, ?_⟩
  · exact (effect.locked held.2 taken).resolve_left (by simp)
  · intro v owner
    rcases effect.owner (Or.inr wf) owner with gains | ⟨old, _⟩
    · simp [Gains] at gains
    · exact owners v old

end Call

theorem reached_sized {guard : Proc → List Event → Action → Prop} (reached : Reaches step guard Initial p trace) :
    Sized p.view := by
  refine (run_invariant (fun _ _ _ => True) (fun p _ => Sized p.view) ?_ ?_ ?_ reached).2
  · intro p initial w made
    cases w with
    | mutex id => exact absurd made.1 (by simp [initial.mutexes])
    | semaphore id => exact absurd made (by simp [Proc.view, Proc.Created, initial.semaphores])
    | condvar id => exact absurd made (by simp [Proc.view, Proc.Created, initial.condvars])
  · exact fun _ _ _ _ _ _ _ _ => trivial
  · exact fun p trace label events q wf sized _ effect => effect.sized wf sized

/-- A group that starves on mutexes is a reason of its own. -/
theorem ownDeadlock_of_group {threads : Finset Tid} (member : t ∈ threads) (live : ∀ u ∈ threads, Live p u)
    (short : ∀ u ∈ threads, ∃ n,
      (books (requesting p t m)).supply threads (.inl n) < (requesting p t m).mutexRequest u n) : OwnDeadlock p t m := by
  intro _
  refine ⟨threads, ⟨⟨t, member⟩, ?_, ?_⟩, member, short⟩
  · exact fun u inside => mem_books_live.mpr (live u inside)
  · intro u inside
    obtain ⟨n, less⟩ := short u inside
    exact ⟨.inl n, less⟩

theorem refused_of_events {mutexId : Int}
    (emits : (step p (.mutexLock mutexId)).map Prod.snd = some [.returned t deadlockCode]) : Refused p t mutexId := by
  obtain ⟨⟨after, events⟩, stepped, rfl⟩ := Option.map_eq_some_iff.mp emits
  exact ⟨after, stepped⟩

end BtbuOs.Sync
