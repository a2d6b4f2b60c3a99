import BtbuOs.Sched.Fetch
import Mathlib.Data.Fintype.Prod
import Mathlib.Data.Fintype.Card

namespace BtbuOs.Sched

open Machine
open Sync (nthread Tid ThreadState)

def Runnable (k : Kernel) (s : Slot) (t : Tid) : Prop := (k.pool s).threads t = .runnable

instance (k : Kernel) (s : Slot) (t : Tid) : Decidable (Runnable k s t) := inferInstanceAs (Decidable (_ = _))

/-- Every RUNNABLE thread belongs to a process in use and has an entry. -/
def Listed (k : Kernel) : Prop :=
  ∀ s t, Runnable k s t → (k.pool s).state = .used ∧ taskToId s t ∈ k.queue.toList

/-- The entries are exactly the RUNNABLE threads of processes in use, each of them once. -/
def OneToOne (k : Kernel) : Prop :=
  (∀ s t, Runnable k s t → k.queue.toList.count (taskToId s t) = 1) ∧
    ∀ s t, taskToId s t ∈ k.queue.toList → Runnable k s t ∧ (k.pool s).state = .used

/-- A main thread exits only when no other thread of its process waits for the processor. -/
def ExitsAlone (k : Kernel) : Action → Prop
  | .exit _ => ∀ s, k.current = some (s, 0) → ∀ t, ¬Runnable k s t
  | _ => True

instance (k : Kernel) : (action : Action) → Decidable (ExitsAlone k action)
  | .exit _ => inferInstanceAs (Decidable (∀ s, k.current = some (s, 0) → ∀ t, ¬Runnable k s t))
  | .scheduler | .yield | .sleep | .wake _ | .threadCreate | .fork | .spawn _ | .wait _ | .waittid _
  | .setPriority _ => inferInstanceAs (Decidable True)

/-- The number of RUNNABLE threads. -/
def load (k : Kernel) : Nat := (Finset.univ.filter fun task : Slot × Tid => Runnable k task.1 task.2).card

/-- What every run keeps. -/
structure Covered (k : Kernel) : Prop where
  valid : k.queue.Valid
  size : k.queue.size = queueSize
  used : ∀ s t, (k.pool s).threads t ≠ .unused → (k.pool s).state = .used
  runs : ∀ s t, k.current = some (s, t) → (k.pool s).threads t = .running
  entries : ∀ s t, Runnable k s t → taskToId s t ∈ k.queue.toList

/-- What the runs keep in which main threads exit alone. -/
structure Exact (k : Kernel) : Prop where
  nodup : k.queue.toList.Nodup
  only : ∀ s t, taskToId s t ∈ k.queue.toList → Runnable k s t

/-- The next kernel keeps what the first one has. -/
structure Follows (k after : Kernel) : Prop where
  covered : Covered after
  exactly : Exact k → Exact after

theorem Follows.trans {k mid after : Kernel} (first : Follows k mid) (second : Follows mid after) : Follows k after :=
  ⟨second.covered, fun before => second.exactly (first.exactly before)⟩

/-- A change outside the queue that makes no thread RUNNABLE keeps the entries. -/
theorem Covered.quiet {k after : Kernel} (covered : Covered k) (queue : after.queue = k.queue)
    (used : ∀ s t, (after.pool s).threads t ≠ .unused → (after.pool s).state = .used)
    (runs : ∀ s t, after.current = some (s, t) → (after.pool s).threads t = .running)
    (fewer : ∀ s t, Runnable after s t → Runnable k s t) : Covered after := by
  constructor
  · rw [queue]
    exact covered.valid
  · rw [queue]
    exact covered.size
  · exact used
  · exact runs
  · intro s t ready
    rw [queue]
    exact covered.entries s t (fewer s t ready)

/-- A change outside the queue that leaves the RUNNABLE threads alone keeps both invariants. -/
theorem Covered.follows {k after : Kernel} (covered : Covered k) (queue : after.queue = k.queue)
    (used : ∀ s t, (after.pool s).threads t ≠ .unused → (after.pool s).state = .used)
    (runs : ∀ s t, after.current = some (s, t) → (after.pool s).threads t = .running)
    (same : ∀ s t, Runnable after s t ↔ Runnable k s t) : Follows k after := by
  constructor
  · exact covered.quiet queue used runs fun s t => (same s t).mp
  · intro before
    constructor
    · rw [queue]
      exact before.nodup
    · intro s t member
      rw [queue] at member
      exact (same s t).mpr (before.only s t member)

/-- A thread that was not RUNNABLE becomes so and gets the last entry, whoever runs after that. -/
theorem makeReady_follows {k after : Kernel} {s : Slot} {t : Tid} (covered : Covered k) (used : (k.pool s).state = .used)
    (waits : ¬Runnable k s t) (ready : makeReady k s t = .ok after) {current : Option (Slot × Tid)}
    (runs : ∀ r u, current = some (r, u) → (k.pool r).threads u = .running ∧ ¬(r = s ∧ u = t)) :
    Follows k { after with current } := by
  unfold makeReady addTask at ready
  cases pushed : pushQueue k.queue (taskToId s t) with
  | error message => simp [Kernel.setThread, Kernel.setProcess, pushed] at ready
  | ok queue =>
      simp only [Kernel.setThread, Kernel.setProcess, pushed, Except.ok.injEq] at ready
      subst ready
      obtain ⟨valid, content, size⟩ := Queue.pushQueue_ok covered.valid pushed
      have states (r : Slot) (u : Tid) : Runnable (k.setThread s t .runnable) r u ↔ (r = s ∧ u = t) ∨ Runnable k r u := by
        by_cases own : r = s
        · subst own
          by_cases same : u = t <;> simp [Runnable, Kernel.setThread, Kernel.setProcess, same]
        · simp [Runnable, Kernel.setThread, Kernel.setProcess, own]
      refine ⟨⟨valid, size.trans covered.size, ?_, ?_, ?_⟩, fun before => ⟨?_, ?_⟩⟩
      · intro r u present
        by_cases own : r = s
        · subst own
          simpa using used
        · simpa [own] using covered.used r u (by simpa [own] using present)
      · intro r u now
        obtain ⟨running, other⟩ := runs r u now
        by_cases own : r = s
        · subst own
          have apart : u ≠ t := fun equal => other ⟨rfl, equal⟩
          simpa [apart] using running
        · simpa [own] using running
      · intro r u runnable
        show taskToId r u ∈ queue.toList
        rw [content, List.mem_append, List.mem_singleton]
        rcases (states r u).mp runnable with ⟨rfl, rfl⟩ | old
        · exact Or.inr rfl
        · exact Or.inl (covered.entries r u old)
      · show queue.toList.Nodup
        rw [content, List.nodup_append]
        refine ⟨before.nodup, List.nodup_singleton _, ?_⟩
        intro first member second last
        rw [List.mem_singleton] at last
        rintro rfl
        subst last
        exact waits (before.only s t member)
      · intro r u member
        apply (states r u).mpr
        change taskToId r u ∈ queue.toList at member
        rw [content, List.mem_append, List.mem_singleton] at member
        rcases member with old | last
        · exact Or.inr (before.only r u old)
        · have names := congrArg idToTask last
          rw [idToTask_taskToId, idToTask_taskToId, Prod.mk.injEq] at names
          exact Or.inl names

theorem makeReady_current {k after : Kernel} {s : Slot} {t : Tid} (ready : makeReady k s t = .ok after) :
    after.current = k.current := by
  unfold makeReady addTask at ready
  cases pushed : pushQueue k.queue (taskToId s t) with
  | error message => simp [Kernel.setThread, Kernel.setProcess, pushed] at ready
  | ok queue =>
      simp only [Kernel.setThread, Kernel.setProcess, pushed, Except.ok.injEq] at ready
      rw [← ready]

/-- The running thread goes on when it makes another thread RUNNABLE. -/
theorem Covered.ready {k after : Kernel} {s : Slot} {t : Tid} (covered : Covered k) (used : (k.pool s).state = .used)
    (waits : (k.pool s).threads t ≠ .runnable ∧ (k.pool s).threads t ≠ .running)
    (ready : makeReady k s t = .ok after) : Follows k after := by
  have current := makeReady_current ready
  have follows : Follows k { after with current := k.current } := by
    apply makeReady_follows covered used waits.1 ready
    intro r u now
    have running := covered.runs r u now
    refine ⟨running, ?_⟩
    rintro ⟨rfl, rfl⟩
    exact waits.2 running
  rwa [← current] at follows

/-- Only a full ring refuses an entry. -/
theorem makeReady_error {k : Kernel} {s : Slot} {t : Tid} {message : String} (valid : k.queue.Valid)
    (refused : makeReady k s t = .error message) : k.queue.count = k.queue.size := by
  by_contra room
  have bound := Queue.count_le valid
  obtain ⟨next, pushed⟩ := (Queue.pushQueue_isOk valid (taskToId s t)).mpr (by omega)
  simp [makeReady, addTask, Kernel.setThread, Kernel.setProcess, pushed] at refused

/-- A write to one process that leaves its threads and its state alone. -/
theorem setProcess_follows {k : Kernel} (covered : Covered k) {s : Slot} {p : Process}
    (threads : p.threads = (k.pool s).threads) (state : p.state = (k.pool s).state) :
    Follows k (k.setProcess s p) := by
  have same (r : Slot) : ((k.setProcess s p).pool r).threads = (k.pool r).threads ∧
      ((k.setProcess s p).pool r).state = (k.pool r).state := by
    by_cases own : r = s
    · subst own
      simp [Kernel.setProcess, threads, state]
    · simp [Kernel.setProcess, own]
  refine covered.follows rfl (fun r u present => ?_) (fun r u current => ?_) (fun r u => ?_)
  · rw [(same r).1] at present
    rw [(same r).2]
    exact covered.used r u present
  · rw [(same r).1]
    exact covered.runs r u current
  · rw [Runnable, Runnable, (same r).1]

/-- A thread moves between two states that are neither RUNNABLE nor RUNNING. -/
theorem park_follows {k : Kernel} (covered : Covered k) {s : Slot} {t : Tid} {p : Process} {state : ThreadState}
    (threads : p.threads = Function.update (k.pool s).threads t state) (used : p.state = .used)
    (idle : (k.pool s).threads t ≠ .runnable ∧ (k.pool s).threads t ≠ .running) (stays : state ≠ .runnable) :
    Follows k (k.setProcess s p) := by
  have others {r : Slot} {u : Tid} (other : ¬(r = s ∧ u = t)) :
      ((k.setProcess s p).pool r).threads u = (k.pool r).threads u := by
    by_cases own : r = s
    · subst own
      have apart : u ≠ t := fun equal => other ⟨rfl, equal⟩
      simp [Kernel.setProcess, threads, apart]
    · simp [Kernel.setProcess, own]
  refine covered.follows rfl (fun r u present => ?_) (fun r u current => ?_) (fun r u => ?_)
  · by_cases own : r = s
    · subst own
      simp [Kernel.setProcess, used]
    · simp only [Kernel.setProcess, Function.update_of_ne own] at present ⊢
      exact covered.used r u present
  · have running := covered.runs r u current
    have other : ¬(r = s ∧ u = t) := by
      rintro ⟨rfl, rfl⟩
      exact idle.2 running
    rw [others other]
    exact running
  · by_cases both : r = s ∧ u = t
    · obtain ⟨rfl, rfl⟩ := both
      simp [Runnable, Kernel.setProcess, threads, stays, idle.1]
    · rw [Runnable, Runnable, others both]

/-- The running thread gives up the processor without a place in the queue. -/
theorem leave_follows {k : Kernel} (covered : Covered k) {s : Slot} {t : Tid} {p : Process} {state : ThreadState}
    (current : k.current = some (s, t)) (threads : p.threads = Function.update (k.pool s).threads t state)
    (used : p.state = .used) (stays : state ≠ .runnable) : Follows k { k.setProcess s p with current := none } := by
  have running := covered.runs s t current
  refine covered.follows rfl (fun r u present => ?_) (by simp) (fun r u => ?_)
  · by_cases own : r = s
    · subst own
      simp [Kernel.setProcess, used]
    · simp only [Kernel.setProcess, Function.update_of_ne own] at present ⊢
      exact covered.used r u present
  · by_cases own : r = s
    · subst own
      by_cases same : u = t
      · subst same
        simp [Runnable, Kernel.setProcess, threads, stays, running]
      · simp [Runnable, Kernel.setProcess, threads, same]
    · simp [Runnable, Kernel.setProcess, own]

/-- A new process starts without threads. -/
theorem allocproc_follows {k after : Kernel} (covered : Covered k) {np : Slot} (alloc : allocproc k = some (np, after)) :
    Follows k after ∧ (after.pool np).state = .used ∧ after.current = k.current := by
  unfold allocproc at alloc
  split at alloc
  · contradiction
  · rename_i s found
    simp only [Option.some.injEq, Prod.mk.injEq] at alloc
    obtain ⟨rfl, rfl⟩ := alloc
    have free : (k.pool s).state = .unused := by simpa using List.find?_some found
    have vacant (t : Tid) : (k.pool s).threads t = .unused := by
      by_contra present
      have used := covered.used s t present
      simp [free] at used
    refine ⟨covered.follows rfl (fun r u present => ?_) (fun r u current => ?_) (fun r u => ?_), ?_, rfl⟩
    · by_cases own : r = s
      · subst own
        simp [Kernel.setProcess]
      · simp only [Kernel.setProcess, Function.update_of_ne own] at present ⊢
        exact covered.used r u present
    · have running := covered.runs r u current
      have own : r ≠ s := by
        rintro rfl
        simp [vacant u] at running
      simpa [Kernel.setProcess, own] using running
    · by_cases own : r = s
      · subst own
        simp [Runnable, Kernel.setProcess]
      · simp [Runnable, Kernel.setProcess, own]
    · simp [Kernel.setProcess]

theorem allocthread_follows {k after : Kernel} (covered : Covered k) {s : Slot} {t : Tid}
    (used : (k.pool s).state = .used) (alloc : allocthread k s = some (t, after)) :
    Follows k after ∧ (after.pool s).state = .used ∧ (after.pool s).threads t = .used ∧ after.current = k.current := by
  unfold allocthread at alloc
  split at alloc
  · contradiction
  · rename_i u found
    simp only [Option.some.injEq, Prod.mk.injEq] at alloc
    obtain ⟨rfl, rfl⟩ := alloc
    have free : (k.pool s).threads u = .unused := by simpa using List.find?_some found
    refine ⟨park_follows covered rfl used (by simp [free]) (by simp), ?_, ?_, rfl⟩
    · simpa [Kernel.setProcess] using used
    · simp [Kernel.setProcess]

theorem yield_follows {k after : Kernel} {s : Slot} {t : Tid} {events : List Event} (covered : Covered k)
    (current : k.current = some (s, t)) (done : yield k s t = .ok (after, events)) : Follows k after ∧ events = [] := by
  have running := covered.runs s t current
  unfold yield at done
  split at done
  · contradiction
  · rename_i mid ready
    simp only [Except.ok.injEq, Prod.mk.injEq] at done
    obtain ⟨rfl, rfl⟩ := done
    have used := covered.used s t (by simp [running])
    exact ⟨makeReady_follows covered used (by simp [Runnable, running]) ready (by simp), rfl⟩

theorem wake_follows {k after : Kernel} {s : Slot} {t : Tid} {events : List Event} (covered : Covered k)
    (done : wake k s t = some (.ok (after, events))) : Follows k after := by
  unfold wake at done
  split at done
  · rename_i asleep
    split at done
    · simp at done
    · rename_i mid ready
      simp only [Option.some.injEq, Except.ok.injEq, Prod.mk.injEq] at done
      obtain ⟨rfl, rfl⟩ := done
      exact covered.ready (covered.used s t (by simp [asleep])) (by simp [asleep]) ready
  · contradiction

theorem sysThreadCreate_follows {k after : Kernel} {s : Slot} {events : List Event} (covered : Covered k)
    (used : (k.pool s).state = .used) (done : sysThreadCreate k s = .ok (after, events)) : Follows k after := by
  unfold sysThreadCreate at done
  split at done
  · simp only [Except.ok.injEq, Prod.mk.injEq] at done
    obtain ⟨rfl, rfl⟩ := done
    exact ⟨covered, id⟩
  · rename_i t mid alloc
    obtain ⟨first, kept, fresh, _⟩ := allocthread_follows covered used alloc
    split at done
    · contradiction
    · rename_i final ready
      simp only [Except.ok.injEq, Prod.mk.injEq] at done
      obtain ⟨rfl, rfl⟩ := done
      exact first.trans (first.covered.ready kept (by simp [fresh]) ready)

/-- A new process whose main thread becomes RUNNABLE. -/
theorem newProcess_follows {k made filled after : Kernel} {s np : Slot} {t : Tid} (covered : Covered k)
    (alloc : allocproc k = some (np, made))
    (thread : allocthread (made.setProcess np { made.pool np with parent := some s }) np = some (t, filled))
    (ready : makeReady filled np t = .ok after) : Follows k after := by
  obtain ⟨first, used, _⟩ := allocproc_follows covered alloc
  have second : Follows made (made.setProcess np { made.pool np with parent := some s }) :=
    setProcess_follows first.covered rfl rfl
  have kept : ((made.setProcess np { made.pool np with parent := some s }).pool np).state = .used := by
    simpa [Kernel.setProcess] using used
  obtain ⟨third, present, fresh, _⟩ := allocthread_follows second.covered kept thread
  exact first.trans (second.trans (third.trans (third.covered.ready present (by simp [fresh]) ready)))

theorem fork_follows {k after : Kernel} {s : Slot} {events : List Event} (covered : Covered k)
    (done : fork k s = .ok (after, events)) : Follows k after := by
  unfold fork at done
  split at done
  · contradiction
  · rename_i np made alloc
    split at done
    · contradiction
    · rename_i t filled thread
      split at done
      · contradiction
      · rename_i final ready
        simp only [Except.ok.injEq, Prod.mk.injEq] at done
        obtain ⟨rfl, rfl⟩ := done
        exact newProcess_follows covered alloc thread ready

theorem sysSpawn_follows {k after : Kernel} {s : Slot} {found : Bool} {events : List Event} (covered : Covered k)
    (done : sysSpawn k s found = .ok (after, events)) : Follows k after := by
  unfold sysSpawn at done
  split at done
  · simp only [Except.ok.injEq, Prod.mk.injEq] at done
    obtain ⟨rfl, rfl⟩ := done
    exact ⟨covered, id⟩
  · split at done
    · simp only [Except.ok.injEq, Prod.mk.injEq] at done
      obtain ⟨rfl, rfl⟩ := done
      exact ⟨covered, id⟩
    · rename_i np made alloc
      split at done
      · contradiction
      · rename_i t filled thread
        split at done
        · contradiction
        · rename_i main
          simp only [not_not] at main
          subst main
          split at done
          · contradiction
          · rename_i final ready
            simp only [Except.ok.injEq, Prod.mk.injEq] at done
            obtain ⟨rfl, rfl⟩ := done
            exact newProcess_follows covered alloc thread ready

theorem wait_follows {k after : Kernel} {s : Slot} {t : Tid} {pid : Int} {events : List Event} (covered : Covered k)
    (current : k.current = some (s, t)) (done : wait k s t pid = .ok (after, events)) : Follows k after := by
  unfold wait at done
  split at done
  · rename_i np found
    simp only [Except.ok.injEq, Prod.mk.injEq] at done
    obtain ⟨rfl, rfl⟩ := done
    have zombie : (k.pool np).state = .zombie := by
      have chosen := List.find?_some found
      simp only [Bool.and_eq_true, beq_iff_eq] at chosen
      exact chosen.2
    have vacant (u : Tid) : (k.pool np).threads u = .unused := by
      by_contra present
      have used := covered.used np u present
      simp [zombie] at used
    refine covered.follows rfl (fun r u present => ?_) (fun r u now => ?_) (fun r u => ?_)
    · by_cases own : r = np
      · subst own
        simp [Kernel.setProcess, vacant] at present
      · simp only [Kernel.setProcess, Function.update_of_ne own] at present ⊢
        exact covered.used r u present
    · have running := covered.runs r u now
      have own : r ≠ np := by
        rintro rfl
        simp [vacant] at running
      simpa [Kernel.setProcess, own] using running
    · by_cases own : r = np
      · subst own
        simp [Runnable, Kernel.setProcess]
      · simp [Runnable, Kernel.setProcess, own]
  · split at done
    · exact (yield_follows covered current done).1
    · simp only [Except.ok.injEq, Prod.mk.injEq] at done
      obtain ⟨rfl, rfl⟩ := done
      exact ⟨covered, id⟩

/-- The exit of a main thread clears the threads of its slot and no others. -/
theorem exit_main (k : Kernel) (s : Slot) (code : Int) :
    (exit k s 0 code).queue = k.queue ∧ (exit k s 0 code).current = none ∧
      (∀ t, ((exit k s 0 code).pool s).threads t = .unused) ∧
      ∀ r, r ≠ s → ((exit k s 0 code).pool r).threads = (k.pool r).threads ∧
        ((exit k s 0 code).pool r).state = (k.pool r).state := by
  unfold exit
  simp only [if_true]
  refine ⟨?_, trivial, fun t => ?_, fun r other => ⟨?_, ?_⟩⟩
  · split <;> rfl
  all_goals
    split <;> split <;> simp_all [freeproc, Kernel.setProcess]

theorem exit_follows {k : Kernel} {s : Slot} {t : Tid} (covered : Covered k) (current : k.current = some (s, t))
    (code : Int) : Covered (exit k s t code) ∧ (Exact k → ExitsAlone k (.exit code) → Exact (exit k s t code)) := by
  by_cases main : t = 0
  · subst main
    obtain ⟨queue, idle, cleared, others⟩ := exit_main k s code
    have states (r : Slot) (u : Tid) (ready : Runnable (exit k s 0 code) r u) : r ≠ s := by
      rintro rfl
      simp [Runnable, cleared] at ready
    constructor
    · refine covered.quiet queue (fun r u present => ?_) (by simp [idle]) (fun r u ready => ?_)
      · have other : r ≠ s := by
          rintro rfl
          simp [cleared] at present
        rw [(others r other).1] at present
        rw [(others r other).2]
        exact covered.used r u present
      · rwa [Runnable, (others r (states r u ready)).1] at ready
    · intro before alone
      constructor
      · rw [queue]
        exact before.nodup
      · intro r u member
        rw [queue] at member
        have ready := before.only r u member
        have other : r ≠ s := by
          rintro rfl
          exact alone r current u ready
        rwa [Runnable, (others r other).1]
  · have running := covered.runs s t current
    have used := covered.used s t (by simp [running])
    have follows : Follows k (exit k s t code) := by
      unfold exit
      rw [if_neg main]
      exact leave_follows covered current rfl used (by simp)
    exact ⟨follows.covered, fun before _ => follows.exactly before⟩

theorem sysWaittid_follows {k : Kernel} {s : Slot} {t : Tid} (covered : Covered k) (used : (k.pool s).state = .used)
    (tid : Int) : Follows k (sysWaittid k s t tid).1 := by
  unfold sysWaittid
  split
  · dsimp only
    split
    · exact ⟨covered, id⟩
    · split
      · exact ⟨covered, id⟩
      · rename_i ended
        simp only [not_not] at ended
        exact park_follows covered rfl used (by simp [ended]) (by simp)
  · exact ⟨covered, id⟩

theorem sysSetPriority_follows {k : Kernel} (covered : Covered k) (s : Slot) (prio : Int) :
    Follows k (sysSetPriority k s prio).1 := by
  unfold sysSetPriority
  split
  · exact ⟨covered, id⟩
  · exact setProcess_follows covered rfl rfl

/-- The scheduler takes out an entry and runs its thread only if that is RUNNABLE. -/
theorem scheduler_follows {k after : Kernel} {events : List Event} (covered : Covered k) (idle : k.current = none)
    (done : scheduler k = .ok (after, events)) :
    Follows k after ∧ ∀ s t, .switched s t ∈ events → Runnable k s t ∧ (k.pool s).state = .used := by
  unfold scheduler at done
  cases fetched : fetchTask k with
  | mk result mid =>
      rcases fetchTask_fetched covered.valid fetched with ⟨rfl, _⟩ | ⟨id, rfl, out⟩
      · simp [fetched] at done
      · obtain ⟨before, rest, content, left⟩ := out.split
        have states (r : Slot) (u : Tid) : Runnable mid r u ↔ Runnable k r u := by
          rw [Runnable, Runnable, (out.kept r).1]
        have remains {other : TaskId} (member : other ∈ k.queue.toList) (apart : other ≠ id) :
            other ∈ mid.queue.toList := by
          rw [content, List.mem_append, List.mem_cons] at member
          rw [left, List.mem_append]
          rcases member with first | same | last
          · exact Or.inl first
          · exact absurd same apart
          · exact Or.inr last
        have older {other : TaskId} (member : other ∈ mid.queue.toList) : other ∈ k.queue.toList := by
          rw [left, List.mem_append] at member
          rw [content, List.mem_append, List.mem_cons]
          rcases member with first | last
          · exact Or.inl first
          · exact Or.inr (Or.inr last)
        have unique (exactly : Exact k) : mid.queue.toList.Nodup ∧ id ∉ mid.queue.toList := by
          have nodup := exactly.nodup
          rw [content, List.nodup_middle, List.nodup_cons] at nodup
          rw [left]
          exact ⟨nodup.2, nodup.1⟩
        have used (r : Slot) (u : Tid) (present : (mid.pool r).threads u ≠ .unused) : (mid.pool r).state = .used := by
          rw [(out.kept r).1] at present
          rw [(out.kept r).2.1]
          exact covered.used r u present
        have size : mid.queue.size = queueSize := out.size.trans covered.size
        simp only [fetched] at done
        split at done
        · rename_i stale
          simp only [Except.ok.injEq, Prod.mk.injEq] at done
          obtain ⟨rfl, rfl⟩ := done
          refine ⟨⟨⟨out.valid, size, used, ?_, ?_⟩, fun exactly => ⟨(unique exactly).1, ?_⟩⟩, by simp⟩
          · intro r u now
            rw [out.current, idle] at now
            contradiction
          · intro r u ready
            apply remains (covered.entries r u ((states r u).mp ready))
            intro same
            have names := taskToId_eq_iff.mp same
            rw [names] at stale
            exact stale ready
          · intro r u member
            exact (states r u).mpr (exactly.only r u (older member))
        · rename_i ready
          simp only [not_not] at ready
          simp only [Except.ok.injEq, Prod.mk.injEq] at done
          obtain ⟨rfl, rfl⟩ := done
          have own : taskToId (idToTask id).1 (idToTask id).2 = id := taskToId_idToTask id
          generalize (idToTask id).1 = s at *
          generalize (idToTask id).2 = t at *
          have present : (mid.pool s).state = .used := used s t (by simp [ready])
          have others (r : Slot) (u : Tid) : Runnable { mid.setThread s t .running with current := some (s, t) } r u ↔
              ¬(r = s ∧ u = t) ∧ Runnable mid r u := by
            by_cases slot : r = s
            · subst slot
              by_cases same : u = t <;> simp [Runnable, Kernel.setThread, Kernel.setProcess, same]
            · simp [Runnable, Kernel.setThread, Kernel.setProcess, slot]
          refine ⟨⟨⟨out.valid, size, ?_, ?_, ?_⟩, fun exactly => ⟨(unique exactly).1, ?_⟩⟩, ?_⟩
          · intro r u live
            by_cases slot : r = s
            · subst slot
              simpa [Kernel.setThread, Kernel.setProcess] using present
            · simp only [Kernel.setThread, Kernel.setProcess, Function.update_of_ne slot] at live ⊢
              exact used r u live
          · intro r u now
            simp only [Option.some.injEq, Prod.mk.injEq] at now
            obtain ⟨rfl, rfl⟩ := now
            simp [Kernel.setThread, Kernel.setProcess]
          · intro r u runnable
            obtain ⟨other, old⟩ := (others r u).mp runnable
            apply remains (covered.entries r u ((states r u).mp old))
            rw [← own]
            intro same
            have names := taskToId_eq_iff.mp same
            rw [idToTask_taskToId, Prod.mk.injEq] at names
            exact other ⟨names.1.symm, names.2.symm⟩
          · intro r u member
            apply (others r u).mpr
            refine ⟨?_, (states r u).mpr (exactly.only r u (older member))⟩
            rintro ⟨rfl, rfl⟩
            rw [own] at member
            exact (unique exactly).2 member
          · intro r u event
            simp only [List.mem_singleton, Event.switched.injEq] at event
            obtain ⟨rfl, rfl⟩ := event
            exact ⟨(states r u).mp ready, by rw [← (out.kept r).2.1]; exact present⟩

/-- Every completed operation of the running thread keeps the invariants. -/
theorem operate_kept {k after : Kernel} {s : Slot} {t : Tid} {action : Action} {events : List Event}
    (covered : Covered k) (current : k.current = some (s, t))
    (done : operate k s t action = some (.ok (after, events))) :
    Covered after ∧ (Exact k → ExitsAlone k action → Exact after) := by
  have running := covered.runs s t current
  have used := covered.used s t (by simp [running])
  have plain (follows : Follows k after) : Covered after ∧ (Exact k → ExitsAlone k action → Exact after) :=
    ⟨follows.covered, fun before _ => follows.exactly before⟩
  cases action with
  | scheduler => simp [operate] at done
  | yield => exact plain (yield_follows covered current (Option.some.inj done)).1
  | sleep =>
      simp only [operate, Option.some.injEq, Except.ok.injEq, Prod.mk.injEq] at done
      obtain ⟨rfl, rfl⟩ := done
      exact plain (leave_follows covered current rfl used (by simp))
  | wake u => exact plain (wake_follows covered done)
  | threadCreate => exact plain (sysThreadCreate_follows covered used (Option.some.inj done))
  | fork => exact plain (fork_follows covered (Option.some.inj done))
  | spawn found => exact plain (sysSpawn_follows covered (Option.some.inj done))
  | wait pid => exact plain (wait_follows covered current (Option.some.inj done))
  | waittid tid =>
      simp only [operate, Option.some.injEq, Except.ok.injEq] at done
      have follows := sysWaittid_follows (t := t) covered used tid
      rw [done] at follows
      exact plain follows
  | setPriority prio =>
      simp only [operate, Option.some.injEq, Except.ok.injEq] at done
      have follows := sysSetPriority_follows covered s prio
      rw [done] at follows
      exact plain follows
  | exit code =>
      simp only [operate, Option.some.injEq, Except.ok.injEq, Prod.mk.injEq] at done
      obtain ⟨rfl, rfl⟩ := done
      exact exit_follows covered current code

/-- A panic changes nothing that the invariants read. -/
theorem halted_follows {k : Kernel} (covered : Covered k) : Follows k { k with halted := true } :=
  ⟨⟨covered.valid, covered.size, covered.used, covered.runs, covered.entries⟩,
    fun before => ⟨before.nodup, before.only⟩⟩

/-- Every step keeps the invariants. -/
theorem step_kept {k after : Kernel} {action : Action} {events : List Event} (covered : Covered k)
    (stepped : step k action = some (after, events)) :
    Covered after ∧ (Exact k → ExitsAlone k action → Exact after) := by
  have settled {result : Except String (Kernel × List Event)} (settling : settle k result = (after, events))
      (kept : ∀ r emitted, result = .ok (r, emitted) → Covered r ∧ (Exact k → ExitsAlone k action → Exact r)) :
      Covered after ∧ (Exact k → ExitsAlone k action → Exact after) := by
    cases result with
    | error message =>
        simp only [settle, Prod.mk.injEq] at settling
        obtain ⟨rfl, _⟩ := settling
        have follows := halted_follows covered
        exact ⟨follows.covered, fun before _ => follows.exactly before⟩
    | ok pair =>
        obtain ⟨r, emitted⟩ := pair
        simp only [settle, Prod.mk.injEq] at settling
        obtain ⟨rfl, _⟩ := settling
        exact kept r emitted rfl
  unfold step at stepped
  split at stepped
  · contradiction
  · cases current : k.current with
    | none =>
        cases action with
        | scheduler =>
            simp only [current, Option.some.injEq] at stepped
            refine settled stepped fun r emitted done => ?_
            have follows := (scheduler_follows covered current done).1
            exact ⟨follows.covered, fun before _ => follows.exactly before⟩
        | _ => simp [current] at stepped
    | some task =>
        obtain ⟨s, t⟩ := task
        simp only [current, Option.map_eq_some_iff] at stepped
        obtain ⟨result, operated, settling⟩ := stepped
        exact settled settling fun r emitted done => operate_kept covered current (by rw [operated, done])

theorem freshKernel_kept : Covered freshKernel ∧ Exact freshKernel := by
  have content : freshKernel.queue.toList = [taskToId 0 0] := by decide
  have ready (s : Slot) (t : Tid) : Runnable freshKernel s t ↔ s = 0 ∧ t = 0 := by
    simp [Runnable, freshKernel]
  refine ⟨⟨⟨by decide, by decide, by decide⟩, rfl, ?_, ?_, ?_⟩, ⟨?_, ?_⟩⟩
  · intro s t present
    by_cases own : s = 0
    · simp [freshKernel, own]
    · simp [freshKernel, own] at present
  · intro s t current
    contradiction
  · intro s t runnable
    obtain ⟨rfl, rfl⟩ := (ready s t).mp runnable
    simp [content]
  · simp [content]
  · intro s t member
    rw [content, List.mem_singleton] at member
    have names := congrArg idToTask member
    rw [idToTask_taskToId, idToTask_taskToId, Prod.mk.injEq] at names
    exact (ready s t).mpr names

/-- The text of the panic in `push_queue`. -/
def overflow : String := "queue shouldn't be overflow"

theorem allocthread_queue {k after : Kernel} {s : Slot} {t : Tid} (alloc : allocthread k s = some (t, after)) :
    after.queue = k.queue := by
  unfold allocthread at alloc
  split at alloc
  · contradiction
  · simp only [Option.some.injEq, Prod.mk.injEq] at alloc
    rw [← alloc.2]
    rfl

theorem allocproc_queue {k after : Kernel} {np : Slot} (alloc : allocproc k = some (np, after)) :
    after.queue = k.queue := by
  unfold allocproc at alloc
  split at alloc
  · contradiction
  · simp only [Option.some.injEq, Prod.mk.injEq] at alloc
    rw [← alloc.2]
    rfl

/-- A new process meets the overflow only when the ring was full. -/
theorem newProcess_full {k made filled : Kernel} {s np : Slot} {t : Tid} {message : String} (valid : k.queue.Valid)
    (alloc : allocproc k = some (np, made))
    (thread : allocthread (made.setProcess np { made.pool np with parent := some s }) np = some (t, filled))
    (refused : makeReady filled np t = .error message) : k.queue.count = k.queue.size := by
  have earlier := allocproc_queue alloc
  have same : filled.queue = k.queue := by
    rw [allocthread_queue thread]
    exact earlier
  have full := makeReady_error (same ▸ valid) refused
  rwa [same] at full

/-- The overflow panic means that the ring is full. -/
theorem operate_full {k : Kernel} {s : Slot} {t : Tid} {action : Action} (valid : k.queue.Valid)
    (refused : operate k s t action = some (.error overflow)) : k.queue.count = k.queue.size := by
  have yields (done : yield k s t = .error overflow) : k.queue.count = k.queue.size := by
    unfold yield at done
    split at done
    · rename_i ready
      exact makeReady_error valid ready
    · contradiction
  cases action with
  | scheduler => simp [operate] at refused
  | yield => exact yields (Option.some.inj refused)
  | sleep | waittid | setPriority | exit => simp [operate] at refused
  | wake u =>
      simp only [operate, wake] at refused
      split at refused
      · split at refused
        · rename_i ready
          exact makeReady_error valid ready
        · simp at refused
      · contradiction
  | threadCreate =>
      simp only [operate, sysThreadCreate, Option.some.injEq] at refused
      split at refused
      · contradiction
      · rename_i u mid alloc
        split at refused
        · rename_i ready
          have same := allocthread_queue alloc
          have full := makeReady_error (same ▸ valid) ready
          rwa [same] at full
        · contradiction
  | fork =>
      simp only [operate, fork, Option.some.injEq] at refused
      split at refused
      · simp [overflow] at refused
      · rename_i np made alloc
        split at refused
        · simp [overflow] at refused
        · rename_i u filled thread
          split at refused
          · rename_i ready
            exact newProcess_full valid alloc thread ready
          · contradiction
  | spawn found =>
      simp only [operate, sysSpawn, Option.some.injEq] at refused
      split at refused
      · contradiction
      · split at refused
        · contradiction
        · rename_i np made alloc
          split at refused
          · simp [overflow] at refused
          · rename_i u filled thread
            split at refused
            · simp [overflow] at refused
            · rename_i main
              simp only [not_not] at main
              subst main
              split at refused
              · rename_i ready
                exact newProcess_full valid alloc thread ready
              · contradiction
  | wait pid =>
      simp only [operate, wait, Option.some.injEq] at refused
      split at refused
      · contradiction
      · split at refused
        · exact yields refused
        · contradiction

/-- A full ring of distinct RUNNABLE threads counts as many of them. -/
theorem load_full {k : Kernel} (covered : Covered k) (exactly : Exact k) (full : k.queue.count = k.queue.size) :
    queueSize ≤ load k := by
  have tasks : (k.queue.toList.map idToTask).Nodup := by
    apply exactly.nodup.map
    intro first second same
    rw [← taskToId_idToTask first, ← taskToId_idToTask second, same]
  have inside : (k.queue.toList.map idToTask).toFinset ⊆
      Finset.univ.filter fun task : Slot × Tid => Runnable k task.1 task.2 := by
    intro task member
    have entry : taskToId task.1 task.2 ∈ k.queue.toList := by
      obtain ⟨id, present, names⟩ := List.mem_map.mp (List.mem_toFinset.mp member)
      rwa [← names, taskToId_idToTask]
    simp only [Finset.mem_filter_univ]
    exact exactly.only _ _ entry
  have cards := Finset.card_le_card inside
  rw [List.toFinset_card_of_nodup tasks, List.length_map, Queue.toList_length, full, covered.size] at cards
  exact cards

/-- No completed operation reports a panic. -/
theorem operate_quiet {k after : Kernel} {s : Slot} {t : Tid} {action : Action} {events : List Event}
    (done : operate k s t action = some (.ok (after, events))) (message : String) : .panicked message ∉ events := by
  have yields (done : yield k s t = .ok (after, events)) : .panicked message ∉ events := by
    unfold yield at done
    split at done
    · contradiction
    · simp only [Except.ok.injEq, Prod.mk.injEq] at done
      simp [← done.2]
  cases action with
  | scheduler => simp [operate] at done
  | yield => exact yields (Option.some.inj done)
  | sleep | exit =>
      simp only [operate, Option.some.injEq, Except.ok.injEq, Prod.mk.injEq] at done
      simp [← done.2]
  | wake u =>
      simp only [operate, wake] at done
      split at done
      · split at done
        · simp at done
        · simp only [Option.some.injEq, Except.ok.injEq, Prod.mk.injEq] at done
          simp [← done.2]
      · contradiction
  | threadCreate =>
      simp only [operate, sysThreadCreate, Option.some.injEq] at done
      split at done
      · simp only [Except.ok.injEq, Prod.mk.injEq] at done
        simp [← done.2]
      · split at done
        · contradiction
        · simp only [Except.ok.injEq, Prod.mk.injEq] at done
          simp [← done.2]
  | fork =>
      simp only [operate, fork, Option.some.injEq] at done
      iterate 3
        split at done
        · contradiction
      simp only [Except.ok.injEq, Prod.mk.injEq] at done
      simp [← done.2]
  | spawn found =>
      simp only [operate, sysSpawn, Option.some.injEq] at done
      iterate 2
        split at done
        · simp only [Except.ok.injEq, Prod.mk.injEq] at done
          simp [← done.2]
      iterate 3
        split at done
        · contradiction
      simp only [Except.ok.injEq, Prod.mk.injEq] at done
      simp [← done.2]
  | wait pid =>
      simp only [operate, wait, Option.some.injEq] at done
      split at done
      · simp only [Except.ok.injEq, Prod.mk.injEq] at done
        simp [← done.2]
      · split at done
        · exact yields done
        · simp only [Except.ok.injEq, Prod.mk.injEq] at done
          simp [← done.2]
  | waittid tid =>
      simp only [operate, sysWaittid, Option.some.injEq, Except.ok.injEq] at done
      repeat' split at done
      all_goals
        simp only [Prod.mk.injEq] at done
        simp [← done.2]
  | setPriority prio =>
      simp only [operate, sysSetPriority, Option.some.injEq, Except.ok.injEq] at done
      split at done
      all_goals
        simp only [Prod.mk.injEq] at done
        simp [← done.2]

theorem scheduler_quiet {k after : Kernel} {events : List Event} (done : scheduler k = .ok (after, events))
    (message : String) : .panicked message ∉ events := by
  unfold scheduler at done
  split at done
  · contradiction
  · dsimp only at done
    split at done
    all_goals
      simp only [Except.ok.injEq, Prod.mk.injEq] at done
      simp [← done.2]

/-- The scheduler panics only when the queue is empty. -/
theorem scheduler_error {k : Kernel} {message : String} (refused : scheduler k = .error message) :
    message = "all app are over!\n" := by
  unfold scheduler at refused
  split at refused
  · exact (Except.error.inj refused).symm
  · dsimp only at refused
    split at refused <;> contradiction

/-- An overflow of the run queue halts the kernel while the ring is full of RUNNABLE threads. -/
theorem step_overflow {k after : Kernel} {action : Action} {events : List Event} (covered : Covered k)
    (exactly : Exact k) (stepped : step k action = some (after, events)) (panics : .panicked overflow ∈ events) :
    after.halted = true ∧ queueSize ≤ load after := by
  unfold step at stepped
  split at stepped
  · contradiction
  · cases current : k.current with
    | none =>
        cases action with
        | scheduler =>
            simp only [current, Option.some.injEq] at stepped
            cases result : scheduler k with
            | error message =>
                simp only [result, settle, Prod.mk.injEq] at stepped
                obtain ⟨rfl, rfl⟩ := stepped
                simp only [List.mem_singleton, Event.panicked.injEq] at panics
                have idle := scheduler_error result
                simp [← panics, overflow] at idle
            | ok pair =>
                obtain ⟨r, emitted⟩ := pair
                simp only [result, settle, Prod.mk.injEq] at stepped
                obtain ⟨rfl, rfl⟩ := stepped
                exact absurd panics (scheduler_quiet result overflow)
        | _ => simp [current] at stepped
    | some task =>
        obtain ⟨s, t⟩ := task
        simp only [current, Option.map_eq_some_iff] at stepped
        obtain ⟨result, operated, settling⟩ := stepped
        cases result with
        | error message =>
            simp only [settle, Prod.mk.injEq] at settling
            obtain ⟨rfl, rfl⟩ := settling
            simp only [List.mem_singleton, Event.panicked.injEq] at panics
            subst panics
            have full := load_full covered exactly (operate_full covered.valid operated)
            exact ⟨rfl, full⟩
        | ok pair =>
            obtain ⟨r, emitted⟩ := pair
            simp only [settle, Prod.mk.injEq] at settling
            obtain ⟨rfl, rfl⟩ := settling
            exact absurd panics (operate_quiet operated overflow)

/-- In every run each RUNNABLE thread has an entry and only RUNNABLE threads of processes in use are switched to.
When main threads exit alone, the entries are exactly the RUNNABLE threads, and the ring overflows only when it holds
`QUEUE_SIZE` of them. -/
theorem run_queue_kept :
    (∀ k trace, Reaches step (fun _ _ _ => True) (· = freshKernel) k trace →
      Listed k ∧ ∀ after events s t, step k .scheduler = some (after, events) → .switched s t ∈ events →
        Runnable k s t ∧ (k.pool s).state = .used) ∧
    ∀ k trace, Reaches step (fun k _ action => ExitsAlone k action) (· = freshKernel) k trace →
      OneToOne k ∧ (.panicked overflow ∈ trace → queueSize ≤ load k) := by
  constructor
  · intro k trace reached
    have covered : Covered k := by
      refine reached.invariant (fun k _ => Covered k) ?_ ?_
      · rintro k rfl
        exact freshKernel_kept.1
      · exact fun k trace action after events covered _ stepped => (step_kept covered stepped).1
    constructor
    · intro s t ready
      have present : (k.pool s).threads t = .runnable := ready
      exact ⟨covered.used s t (by simp [present]), covered.entries s t ready⟩
    · intro after events s t stepped switched
      unfold step at stepped
      split at stepped
      · contradiction
      · cases current : k.current with
        | some task => simp [current, operate] at stepped
        | none =>
            simp only [current, Option.some.injEq] at stepped
            cases result : scheduler k with
            | error message =>
                simp only [result, settle, Prod.mk.injEq] at stepped
                simp [← stepped.2] at switched
            | ok pair =>
                obtain ⟨r, emitted⟩ := pair
                simp only [result, settle, Prod.mk.injEq] at stepped
                obtain ⟨rfl, rfl⟩ := stepped
                exact (scheduler_follows covered current result).2 s t switched
  · intro k trace reached
    have invariant : Covered k ∧ Exact k ∧ (.panicked overflow ∈ trace → k.halted = true ∧ queueSize ≤ load k) := by
      refine reached.invariant (fun k trace => Covered k ∧ Exact k ∧
        (.panicked overflow ∈ trace → k.halted = true ∧ queueSize ≤ load k)) ?_ ?_
      · rintro k rfl
        exact ⟨freshKernel_kept.1, freshKernel_kept.2, by simp⟩
      · rintro k trace action after events ⟨covered, exactly, before⟩ alone stepped
        obtain ⟨kept, still⟩ := step_kept covered stepped
        refine ⟨kept, still exactly alone, fun panics => ?_⟩
        rcases List.mem_append.mp panics with earlier | now
        · have halted := (before earlier).1
          simp [step, halted] at stepped
        · exact step_overflow covered exactly stepped now
    obtain ⟨covered, exactly, panics⟩ := invariant
    refine ⟨⟨fun s t ready => ?_, fun s t member => ?_⟩, fun panicked => (panics panicked).2⟩
    · exact List.count_eq_one_of_mem exactly.nodup (covered.entries s t ready)
    · have ready := exactly.only s t member
      have present : (k.pool s).threads t = .runnable := ready
      exact ⟨ready, covered.used s t (by simp [present])⟩

/-- The parent collects a child and makes a thread. -/
theorem run_queue_kept_run : ∃ k trace,
    Reaches step (fun k _ action => ExitsAlone k action) (· = freshKernel) k trace ∧
      .reaped 2 7 ∈ trace ∧ OneToOne k := by
  obtain ⟨k, trace, reached, collected⟩ := replay_witness step (fun k _ action => ExitsAlone k action)
    (· = freshKernel)
    [.scheduler, .fork, .wait (-1), .scheduler, .exit 7, .scheduler, .wait 2, .threadCreate]
    freshKernel rfl (fun _ trace => decide (.reaped 2 7 ∈ trace)) (by decide +kernel)
  exact ⟨k, trace, reached, of_decide_eq_true collected, (run_queue_kept.2 k trace reached).1⟩

/-- The exit of a main thread leaves the entry of another thread behind. -/
theorem stale_entry_left : ¬∀ k trace, Reaches step (fun _ _ _ => True) (· = freshKernel) k trace → OneToOne k := by
  intro claim
  obtain ⟨k, trace, reached, stale⟩ := replay_witness step (fun _ _ _ => True) (· = freshKernel)
    [.scheduler, .fork, .wait (-1), .scheduler, .threadCreate, .exit 0] freshKernel rfl
    (fun k _ => decide (taskToId 1 1 ∈ k.queue.toList ∧ ¬Runnable k 1 1)) (by decide +kernel)
  obtain ⟨member, gone⟩ := of_decide_eq_true stale
  exact gone ((claim k trace reached).2 1 1 member).1

end BtbuOs.Sched
