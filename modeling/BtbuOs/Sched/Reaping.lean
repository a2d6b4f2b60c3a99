import BtbuOs.Sched.RunQueue
import Mathlib.Logic.Relation

namespace BtbuOs.Sched

open Machine
open Sync (nthread Tid ThreadState)

/-- The result of a `wait` that collects this zombie. -/
def collect (k : Kernel) (np : Slot) : Kernel × List Event :=
  (k.setProcess np { k.pool np with state := .unused },
    [.reaped (k.pool np).pid (k.pool np).exitCode, .returned (k.pool np).pid])

/-- The parent is in use, and each of its threads collects the zombie by its pid and some zombie by -1. -/
def Reapable (k : Kernel) (np : Slot) : Prop :=
  ∃ s, (k.pool np).parent = some s ∧ (k.pool s).state = .used ∧ ∀ t,
    wait k s t (k.pool np).pid = .ok (collect k np) ∧
      ∃ r, (k.pool r).parent = some s ∧ (k.pool r).state = .zombie ∧ wait k s t (-1) = .ok (collect k r)

/-- A main thread exits only when no child of its process is a zombie. -/
def ReapsFirst (k : Kernel) : Action → Prop
  | .exit _ => ∀ s, k.current = some (s, 0) → ∀ np, (k.pool np).parent = some s → (k.pool np).state ≠ .zombie
  | _ => True

instance (k : Kernel) : (action : Action) → Decidable (ReapsFirst k action)
  | .exit _ => inferInstanceAs (Decidable (∀ s, k.current = some (s, 0) → ∀ np, (k.pool np).parent = some s →
      (k.pool np).state ≠ .zombie))
  | .scheduler | .yield | .sleep | .wake _ | .threadCreate | .fork | .spawn _ | .wait _ | .waittid _
  | .setPriority _ => inferInstanceAs (Decidable True)

/-- The kernel with a record by pid of who made each process and whose main thread has exited. -/
structure Family where
  kernel : Kernel
  maker : Nat → Option Nat
  gone : Nat → Bool

namespace Family

/-- The pid of the process that runs. -/
def running (f : Family) : Option Nat := f.kernel.current.map fun task => (f.kernel.pool task.1).pid

/-- The makers after a step that leaves this kernel. -/
def makers (f : Family) (after : Kernel) : Nat → Option Nat :=
  if after.nextPid = f.kernel.nextPid then f.maker else Function.update f.maker f.kernel.nextPid f.running

/-- The exits after a step. -/
def exits (f : Family) : Action → Nat → Bool
  | .exit _ =>
      match f.kernel.current with
      | some (s, 0) => Function.update f.gone (f.kernel.pool s).pid true
      | _ => f.gone
  | _ => f.gone

def step (f : Family) (action : Action) : Option (Family × List Event) :=
  (Sched.step f.kernel action).map fun (after, events) =>
    ({ kernel := after, maker := f.makers after, gone := f.exits action }, events)

def Initial (f : Family) : Prop := f.kernel = freshKernel ∧ f.maker = (fun _ => none) ∧ f.gone = fun _ => false

/-- A process and those who made it, directly or not. -/
def Descends (f : Family) : Nat → Nat → Prop := Relation.ReflTransGen fun child maker => f.maker child = some maker

end Family

/-- The fields that make the process tree stay as they are. -/
structure Alike (k after : Kernel) : Prop where
  next : after.nextPid = k.nextPid
  kept : ∀ s, (after.pool s).state = (k.pool s).state ∧ (after.pool s).pid = (k.pool s).pid ∧
    (after.pool s).parent = (k.pool s).parent

/-- A slot that was free holds a new child. -/
structure Born (k after : Kernel) (s np : Slot) : Prop where
  free : (k.pool np).state = .unused
  next : after.nextPid = k.nextPid + 1
  state : (after.pool np).state = .used
  pid : (after.pool np).pid = k.nextPid
  parent : (after.pool np).parent = some s
  kept : ∀ r, r ≠ np → (after.pool r).state = (k.pool r).state ∧ (after.pool r).pid = (k.pool r).pid ∧
    (after.pool r).parent = (k.pool r).parent

/-- One slot becomes free. -/
structure Freed (k after : Kernel) (np : Slot) : Prop where
  next : after.nextPid = k.nextPid
  zombie : (k.pool np).state = .zombie
  state : (after.pool np).state = .unused
  kept : ∀ r, r ≠ np → (after.pool r).state = (k.pool r).state ∧ (after.pool r).pid = (k.pool r).pid ∧
    (after.pool r).parent = (k.pool r).parent

/-- A process ends and its children lose their parent. -/
structure Left (k after : Kernel) (s : Slot) : Prop where
  next : after.nextPid = k.nextPid
  state : (after.pool s).state = if (k.pool s).parent.isSome then .zombie else .unused
  kept : ∀ r, r ≠ s → (after.pool r).state = (k.pool r).state
  pid : ∀ r, (after.pool r).pid = (k.pool r).pid
  parent : ∀ r, (after.pool r).parent = if (k.pool r).parent = some s then none else (k.pool r).parent

variable {k mid after : Kernel} {s np : Slot} {t : Tid} {events : List Event}

theorem Alike.rfl : Alike k k := ⟨Eq.refl _, fun _ => ⟨Eq.refl _, Eq.refl _, Eq.refl _⟩⟩

theorem Alike.trans (first : Alike k mid) (second : Alike mid after) : Alike k after := by
  constructor
  · exact second.next.trans first.next
  · intro r
    obtain ⟨state, pid, parent⟩ := first.kept r
    obtain ⟨last, number, above⟩ := second.kept r
    exact ⟨last.trans state, number.trans pid, above.trans parent⟩

theorem Born.alike (born : Born k mid s np) (alike : Alike mid after) : Born k after s np := by
  obtain ⟨state, pid, parent⟩ := alike.kept np
  refine ⟨born.free, alike.next.trans born.next, state.trans born.state, pid.trans born.pid,
    parent.trans born.parent, fun r other => ?_⟩
  obtain ⟨first, number, above⟩ := born.kept r other
  obtain ⟨last, same, under⟩ := alike.kept r
  exact ⟨last.trans first, same.trans number, under.trans above⟩

/-- A write to one slot that leaves its place in the tree alone. -/
theorem setProcess_alike {p : Process} (state : p.state = (k.pool s).state) (pid : p.pid = (k.pool s).pid)
    (parent : p.parent = (k.pool s).parent) : Alike k (k.setProcess s p) := by
  refine ⟨Eq.refl _, fun r => ?_⟩
  by_cases own : r = s
  · subst own
    simp [Kernel.setProcess, state, pid, parent]
  · simp [Kernel.setProcess, own]

theorem setThread_alike (state : ThreadState) : Alike k (k.setThread s t state) := setProcess_alike rfl rfl rfl

theorem makeReady_alike (ready : makeReady k s t = .ok after) : Alike k after := by
  unfold makeReady addTask at ready
  split at ready
  · contradiction
  · simp only [Except.ok.injEq] at ready
    subst ready
    have alike : Alike k (k.setThread s t .runnable) := setThread_alike .runnable
    exact ⟨alike.next, alike.kept⟩

theorem yield_alike (done : yield k s t = .ok (after, events)) : Alike k after := by
  unfold yield at done
  split at done
  · contradiction
  · rename_i mid ready
    simp only [Except.ok.injEq, Prod.mk.injEq] at done
    obtain ⟨rfl, rfl⟩ := done
    have alike := makeReady_alike ready
    exact ⟨alike.next, alike.kept⟩

theorem fetchTask_alike {result : Option TaskId} (fetched : fetchTask k = (result, after)) : Alike k after := by
  unfold fetchTask at fetched
  split at fetched
  · simp only [Prod.mk.injEq] at fetched
    rw [← fetched.2]
    exact Alike.rfl
  · split at fetched
    · simp only [Prod.mk.injEq] at fetched
      rw [← fetched.2]
      exact ⟨Eq.refl _, fun _ => ⟨Eq.refl _, Eq.refl _, Eq.refl _⟩⟩
    · simp only [Prod.mk.injEq] at fetched
      rw [← fetched.2]
      have alike (k : Kernel) (s : Slot) (stride : Nat) : Alike k (k.setProcess s { k.pool s with stride }) :=
        setProcess_alike rfl rfl rfl
      exact ⟨(alike _ _ _).next, (alike { k with queue := _ } _ _).kept⟩

theorem scheduler_alike (done : scheduler k = .ok (after, events)) : Alike k after := by
  unfold scheduler at done
  split at done
  · contradiction
  · rename_i id mid fetched
    have first := fetchTask_alike fetched
    dsimp only at done
    split at done
    · simp only [Except.ok.injEq, Prod.mk.injEq] at done
      obtain ⟨rfl, rfl⟩ := done
      exact first
    · simp only [Except.ok.injEq, Prod.mk.injEq] at done
      obtain ⟨rfl, rfl⟩ := done
      have second : Alike mid (mid.setThread (idToTask id).1 (idToTask id).2 .running) := setThread_alike .running
      exact first.trans ⟨second.next, second.kept⟩

theorem allocthread_alike (alloc : allocthread k s = some (t, after)) : Alike k after := by
  unfold allocthread at alloc
  split at alloc
  · contradiction
  · simp only [Option.some.injEq, Prod.mk.injEq] at alloc
    rw [← alloc.2]
    exact setProcess_alike rfl rfl rfl

/-- A free slot becomes a child of the process. -/
theorem allocproc_born (alloc : allocproc k = some (np, after)) :
    Born k (after.setProcess np { after.pool np with parent := some s }) s np := by
  unfold allocproc at alloc
  split at alloc
  · contradiction
  · rename_i r found
    simp only [Option.some.injEq, Prod.mk.injEq] at alloc
    obtain ⟨rfl, rfl⟩ := alloc
    have free : (k.pool r).state = .unused := by simpa using List.find?_some found
    constructor
    · exact free
    all_goals simp +contextual [Kernel.setProcess]

theorem newProcess_born {made filled : Kernel} (alloc : allocproc k = some (np, made))
    (thread : allocthread (made.setProcess np { made.pool np with parent := some s }) np = some (t, filled))
    (ready : makeReady filled np t = .ok after) : Born k after s np :=
  ((allocproc_born alloc).alike (allocthread_alike thread)).alike (makeReady_alike ready)

theorem fork_born (done : fork k s = .ok (after, events)) : ∃ np, Born k after s np := by
  unfold fork at done
  split at done
  · contradiction
  · rename_i np made alloc
    split at done
    · contradiction
    · rename_i t filled thread
      split at done
      · contradiction
      · rename_i final ready
        simp only [Except.ok.injEq, Prod.mk.injEq] at done
        obtain ⟨rfl, rfl⟩ := done
        exact ⟨np, newProcess_born alloc thread ready⟩

theorem sysSpawn_born {found : Bool} (done : sysSpawn k s found = .ok (after, events)) :
    after = k ∨ ∃ np, Born k after s np := by
  unfold sysSpawn at done
  split at done
  · simp only [Except.ok.injEq, Prod.mk.injEq] at done
    exact Or.inl done.1.symm
  · split at done
    · simp only [Except.ok.injEq, Prod.mk.injEq] at done
      exact Or.inl done.1.symm
    · rename_i np made alloc
      split at done
      · contradiction
      · rename_i t filled thread
        split at done
        · contradiction
        · rename_i main
          simp only [not_not] at main
          subst main
          split at done
          · contradiction
          · rename_i final ready
            simp only [Except.ok.injEq, Prod.mk.injEq] at done
            obtain ⟨rfl, rfl⟩ := done
            exact Or.inr ⟨np, newProcess_born alloc thread ready⟩

theorem sysThreadCreate_alike (done : sysThreadCreate k s = .ok (after, events)) : Alike k after := by
  unfold sysThreadCreate at done
  split at done
  · simp only [Except.ok.injEq, Prod.mk.injEq] at done
    rw [← done.1]
    exact Alike.rfl
  · rename_i t mid alloc
    split at done
    · contradiction
    · rename_i final ready
      simp only [Except.ok.injEq, Prod.mk.injEq] at done
      obtain ⟨rfl, rfl⟩ := done
      exact (allocthread_alike alloc).trans (makeReady_alike ready)

/-- A collected slot becomes free. -/
theorem collect_freed (zombie : (k.pool np).state = .zombie) : Freed k (collect k np).1 np := by
  refine ⟨rfl, zombie, ?_, fun r other => ?_⟩
  · simp [collect, Kernel.setProcess]
  · simp [collect, Kernel.setProcess, other]

theorem wait_freed {pid : Int} (done : wait k s t pid = .ok (after, events)) :
    Alike k after ∨ ∃ np, Freed k after np := by
  unfold wait at done
  split at done
  · rename_i np found
    right
    have chosen := List.find?_some found
    simp only [Bool.and_eq_true, beq_iff_eq] at chosen
    simp only [Except.ok.injEq, Prod.mk.injEq] at done
    obtain ⟨rfl, rfl⟩ := done
    exact ⟨np, collect_freed chosen.2⟩
  · left
    split at done
    · exact yield_alike done
    · simp only [Except.ok.injEq, Prod.mk.injEq] at done
      rw [← done.1]
      exact Alike.rfl

theorem wake_alike (done : wake k s t = some (.ok (after, events))) : Alike k after := by
  unfold wake at done
  split at done
  · split at done
    · simp at done
    · rename_i mid ready
      simp only [Option.some.injEq, Except.ok.injEq, Prod.mk.injEq] at done
      obtain ⟨rfl, rfl⟩ := done
      exact makeReady_alike ready
  · contradiction

theorem sysWaittid_alike (tid : Int) : Alike k (sysWaittid k s t tid).1 := by
  unfold sysWaittid
  split
  · dsimp only
    split
    · exact Alike.rfl
    · split
      · exact Alike.rfl
      · exact setThread_alike .unused
  · exact Alike.rfl

theorem sysSetPriority_alike (prio : Int) : Alike k (sysSetPriority k s prio).1 := by
  unfold sysSetPriority
  split
  · exact Alike.rfl
  · exact setProcess_alike rfl rfl rfl

/-- The process that the exit of its main thread leaves in the slot. -/
def ended (p : Process) (code : Int) : Process :=
  { p with
    state := if p.parent.isSome then .zombie else .unused
    exitCode := code
    threads := fun _ => .unused
    threadExit := Function.update p.threadExit 0 code }

/-- The exit of a main thread ends its process and takes the parent from the children. -/
theorem exit_eq (k : Kernel) (s : Slot) (code : Int) : exit k s 0 code =
    { k with
      current := none
      pool := fun r =>
        let p := Function.update k.pool s (ended (k.pool s) code) r
        if p.parent = some s then { p with parent := none } else p } := by
  cases above : (k.pool s).parent with
  | none => simp [exit, freeproc, Kernel.setProcess, ended, above]
  | some r => simp [exit, freeproc, Kernel.setProcess, ended, above]

theorem exit_left (code : Int) : Left k (exit k s 0 code) s := by
  rw [exit_eq]
  constructor
  · rfl
  · simp only [Function.update_self]
    split <;> rfl
  · intro r other
    simp only [Function.update_of_ne other]
    split <;> rfl
  · intro r
    by_cases own : r = s
    · subst own
      simp only [Function.update_self]
      split <;> rfl
    · simp only [Function.update_of_ne own]
      split <;> rfl
  · intro r
    by_cases own : r = s
    · subst own
      simp only [Function.update_self]
      split <;> simp_all [ended]
    · simp only [Function.update_of_ne own]
      split <;> simp_all

/-- The exit of another thread leaves the tree alone. -/
theorem exit_alike (other : t ≠ 0) (code : Int) : Alike k (exit k s t code) := by
  have alike : Alike k (k.setProcess s { k.pool s with
      threads := Function.update (k.pool s).threads t .exited
      threadExit := Function.update (k.pool s).threadExit t code }) := setProcess_alike rfl rfl rfl
  unfold exit
  rw [if_neg other]
  exact ⟨alike.next, alike.kept⟩

/-- What an operation of the running thread does to the process tree. -/
inductive Change (k : Kernel) (s : Slot) (t : Tid) (action : Action) (after : Kernel) : Prop where
  | alike (ends : ∀ code, action = .exit code → t ≠ 0) (alike : Alike k after)
  | born (ends : ∀ code, action ≠ .exit code) (np : Slot) (born : Born k after s np)
  | freed (ends : ∀ code, action ≠ .exit code) (np : Slot) (freed : Freed k after np)
  | left (code : Int) (exits : action = .exit code) (main : t = 0) (left : Left k after s)

/-- The running thread changes the process tree at one slot. -/
theorem operate_change {action : Action} (done : operate k s t action = some (.ok (after, events))) :
    Change k s t action after := by
  cases action with
  | scheduler => simp [operate] at done
  | yield => exact .alike (by simp) (yield_alike (Option.some.inj done))
  | sleep =>
      simp only [operate, sleep, Option.some.injEq, Except.ok.injEq, Prod.mk.injEq] at done
      have alike : Alike k (k.setThread s t .sleeping) := setThread_alike .sleeping
      rw [← done.1]
      exact .alike (by simp) ⟨alike.next, alike.kept⟩
  | wake u => exact .alike (by simp) (wake_alike done)
  | threadCreate => exact .alike (by simp) (sysThreadCreate_alike (Option.some.inj done))
  | fork =>
      obtain ⟨np, born⟩ := fork_born (Option.some.inj done)
      exact .born (by simp) np born
  | spawn found =>
      rcases sysSpawn_born (Option.some.inj done) with rfl | ⟨np, born⟩
      · exact .alike (by simp) Alike.rfl
      · exact .born (by simp) np born
  | wait pid =>
      rcases wait_freed (Option.some.inj done) with alike | ⟨np, freed⟩
      · exact .alike (by simp) alike
      · exact .freed (by simp) np freed
  | waittid tid =>
      simp only [operate, Option.some.injEq, Except.ok.injEq, Prod.ext_iff] at done
      rw [← done.1]
      exact .alike (by simp) (sysWaittid_alike tid)
  | setPriority prio =>
      simp only [operate, Option.some.injEq, Except.ok.injEq, Prod.ext_iff] at done
      rw [← done.1]
      exact .alike (by simp) (sysSetPriority_alike prio)
  | exit code =>
      simp only [operate, Option.some.injEq, Except.ok.injEq, Prod.mk.injEq] at done
      rw [← done.1]
      by_cases main : t = 0
      · subst main
        exact .left code rfl rfl (exit_left code)
      · exact .alike (by simp [main]) (exit_alike main code)

namespace Family

/-- Every process that exists has its maker above it, who has not exited, or has not exited itself. -/
structure Rooted (f : Family) : Prop where
  zombies : ∀ np, (f.kernel.pool np).state = .zombie → ((f.kernel.pool np).parent).isSome
  parents : ∀ np s, (f.kernel.pool np).state ≠ .unused → (f.kernel.pool np).parent = some s →
    (f.kernel.pool s).state = .used ∧ (f.kernel.pool s).pid < (f.kernel.pool np).pid ∧
      f.maker (f.kernel.pool np).pid = some (f.kernel.pool s).pid
  pids : ∀ np, (f.kernel.pool np).state ≠ .unused → 0 < (f.kernel.pool np).pid ∧ (f.kernel.pool np).pid < f.kernel.nextPid
  distinct : ∀ np r, (f.kernel.pool np).state ≠ .unused → (f.kernel.pool r).state ≠ .unused →
    (f.kernel.pool np).pid = (f.kernel.pool r).pid → np = r
  alive : ∀ np, (f.kernel.pool np).state = .used → f.gone (f.kernel.pool np).pid = false
  future : ∀ pid, f.kernel.nextPid ≤ pid → f.gone pid = false

variable {f : Family}

theorem Rooted.alike {gone : Nat → Bool} (rooted : Rooted f) (alike : Alike f.kernel after) (same : gone = f.gone) :
    Rooted { kernel := after, maker := f.makers after, gone } := by
  subst same
  have maker : f.makers after = f.maker := by simp [makers, alike.next]
  rw [maker]
  constructor
  all_goals
    simp only [fun r => (alike.kept r).1, fun r => (alike.kept r).2.1, fun r => (alike.kept r).2.2, alike.next]
  · exact rooted.zombies
  · exact rooted.parents
  · exact rooted.pids
  · exact rooted.distinct
  · exact rooted.alive
  · exact rooted.future

/-- A new process has the largest pid and a maker in use. -/
theorem Rooted.born (rooted : Rooted f) (born : Born f.kernel after s np) (current : f.kernel.current = some (s, t))
    (used : (f.kernel.pool s).state = .used) : Rooted { kernel := after, maker := f.makers after, gone := f.gone } := by
  have maker : f.makers after = Function.update f.maker f.kernel.nextPid (some (f.kernel.pool s).pid) := by
    simp [makers, born.next, running, current]
  have apart : s ≠ np := by
    rintro rfl
    simp [born.free] at used
  have older (r : Slot) (present : (f.kernel.pool r).state ≠ .unused) : (f.kernel.pool r).pid < f.kernel.nextPid :=
    (rooted.pids r present).2
  have maker_old (r : Slot) (present : (f.kernel.pool r).state ≠ .unused) :
      f.makers after (f.kernel.pool r).pid = f.maker (f.kernel.pool r).pid := by
    rw [maker, Function.update_of_ne (Nat.ne_of_lt (older r present))]
  constructor
  · intro r zombie
    by_cases own : r = np
    · subst own
      simp [born.parent]
    · rw [(born.kept r own).1] at zombie
      rw [(born.kept r own).2.2]
      exact rooted.zombies r zombie
  · intro r above present parent
    by_cases own : r = np
    · subst own
      rw [born.parent] at parent
      obtain rfl := Option.some.inj parent
      dsimp only
      rw [(born.kept s apart).1, (born.kept s apart).2.1, born.pid, maker, Function.update_self]
      exact ⟨used, older s (by simp [used]), rfl⟩
    · dsimp only at present parent ⊢
      rw [(born.kept r own).1] at present
      rw [(born.kept r own).2.2] at parent
      obtain ⟨state, before, made⟩ := rooted.parents r above present parent
      have other : above ≠ np := by
        rintro rfl
        simp [born.free] at state
      rw [(born.kept r own).2.1, (born.kept above other).1, (born.kept above other).2.1, maker_old r present]
      exact ⟨state, before, made⟩
  · intro r present
    dsimp only at present ⊢
    rw [born.next]
    by_cases own : r = np
    · subst own
      rw [born.pid]
      have first := rooted.pids s (by simp [used])
      omega
    · rw [(born.kept r own).1] at present
      rw [(born.kept r own).2.1]
      have bound := rooted.pids r present
      omega
  · intro r u present there same
    dsimp only at present there same
    by_cases own : r = np
    · by_cases mine : u = np
      · rw [own, mine]
      · rw [(born.kept u mine).1] at there
        rw [own, born.pid, (born.kept u mine).2.1] at same
        have bound := older u there
        omega
    · rw [(born.kept r own).1] at present
      by_cases mine : u = np
      · rw [mine, born.pid, (born.kept r own).2.1] at same
        have bound := older r present
        omega
      · rw [(born.kept u mine).1] at there
        rw [(born.kept r own).2.1, (born.kept u mine).2.1] at same
        exact rooted.distinct r u present there same
  · intro r state
    dsimp only at state ⊢
    by_cases own : r = np
    · rw [own, born.pid]
      exact rooted.future _ (Nat.le_refl _)
    · rw [(born.kept r own).1] at state
      rw [(born.kept r own).2.1]
      exact rooted.alive r state
  · intro pid later
    dsimp only at later ⊢
    rw [born.next] at later
    exact rooted.future pid (by omega)

/-- A free slot constrains nothing. -/
theorem Rooted.freed (rooted : Rooted f) (freed : Freed f.kernel after np) :
    Rooted { kernel := after, maker := f.makers after, gone := f.gone } := by
  have maker : f.makers after = f.maker := by simp [makers, freed.next]
  have others {r : Slot} (present : (after.pool r).state ≠ .unused) : r ≠ np := by
    rintro rfl
    exact present freed.state
  rw [maker]
  constructor
  · intro r zombie
    dsimp only at zombie ⊢
    have other := others (r := r) (by simp [zombie])
    rw [(freed.kept r other).1] at zombie
    rw [(freed.kept r other).2.2]
    exact rooted.zombies r zombie
  · intro r above present parent
    have other := others present
    dsimp only at present parent ⊢
    rw [(freed.kept r other).1] at present
    rw [(freed.kept r other).2.2] at parent
    obtain ⟨state, before, made⟩ := rooted.parents r above present parent
    have apart : above ≠ np := by
      rintro rfl
      simp [freed.zombie] at state
    rw [(freed.kept r other).2.1, (freed.kept above apart).1, (freed.kept above apart).2.1]
    exact ⟨state, before, made⟩
  · intro r present
    have other := others present
    dsimp only at present ⊢
    rw [(freed.kept r other).1] at present
    rw [(freed.kept r other).2.1, freed.next]
    exact rooted.pids r present
  · intro r u present there same
    have other := others present
    have apart := others there
    dsimp only at present there same
    rw [(freed.kept r other).1] at present
    rw [(freed.kept u apart).1] at there
    rw [(freed.kept r other).2.1, (freed.kept u apart).2.1] at same
    exact rooted.distinct r u present there same
  · intro r state
    dsimp only at state ⊢
    have other := others (r := r) (by simp [state])
    rw [(freed.kept r other).1] at state
    rw [(freed.kept r other).2.1]
    exact rooted.alive r state
  · intro pid later
    dsimp only at later
    rw [freed.next] at later
    exact rooted.future pid later

/-- A process without zombie children leaves a tree in which each zombie still has its maker. -/
theorem Rooted.left (rooted : Rooted f) (left : Left f.kernel after s) (used : (f.kernel.pool s).state = .used)
    (childless : ∀ np, (f.kernel.pool np).parent = some s → (f.kernel.pool np).state ≠ .zombie) :
    Rooted ⟨after, f.makers after, Function.update f.gone (f.kernel.pool s).pid true⟩ := by
  have maker : f.makers after = f.maker := by simp [makers, left.next]
  have present : (f.kernel.pool s).state ≠ .unused := by simp [used]
  have before {r : Slot} (there : (after.pool r).state ≠ .unused) : (f.kernel.pool r).state ≠ .unused := by
    by_cases own : r = s
    · rwa [own]
    · rwa [left.kept r own] at there
  rw [maker]
  constructor
  · intro r zombie
    dsimp only at zombie ⊢
    by_cases own : r = s
    · subst own
      rw [left.state] at zombie
      split at zombie
      · rename_i child
        obtain ⟨above, parent⟩ := Option.isSome_iff_exists.mp child
        have older := (rooted.parents r above present parent).2.1
        have other : above ≠ r := by
          rintro rfl
          omega
        simp [left.parent, parent, other]
      · simp at zombie
    · rw [left.kept r own] at zombie
      have child := rooted.zombies r zombie
      have other : (f.kernel.pool r).parent ≠ some s := fun parent => childless r parent zombie
      rwa [left.parent, if_neg other]
  · intro r above there parent
    have old := before there
    dsimp only at there parent ⊢
    rw [left.parent] at parent
    split at parent
    · simp at parent
    · rename_i other
      obtain ⟨state, older, made⟩ := rooted.parents r above old parent
      have apart : above ≠ s := by
        rintro rfl
        exact other parent
      rw [left.kept above apart, left.pid, left.pid]
      exact ⟨state, older, made⟩
  · intro r there
    have old := before there
    dsimp only
    rw [left.pid, left.next]
    exact rooted.pids r old
  · intro r u there also same
    dsimp only at same
    rw [left.pid, left.pid] at same
    exact rooted.distinct r u (before there) (before also) same
  · intro r state
    dsimp only at state ⊢
    have own : r ≠ s := by
      rintro rfl
      rw [left.state] at state
      split at state <;> simp at state
    rw [left.kept r own] at state
    have other : (f.kernel.pool r).pid ≠ (f.kernel.pool s).pid := fun same =>
      own (rooted.distinct r s (by simp [state]) present same)
    rw [left.pid, Function.update_of_ne other]
    exact rooted.alive r state
  · intro pid later
    dsimp only at later ⊢
    rw [left.next] at later
    have bound := (rooted.pids s present).2
    rw [Function.update_of_ne (by omega)]
    exact rooted.future pid later

/-- A panic leaves the processes as they are. -/
theorem Rooted.halted (rooted : Rooted f) (action : Action) (quiet : f.exits action = f.gone) :
    Rooted ⟨{ f.kernel with halted := true }, f.makers { f.kernel with halted := true }, f.exits action⟩ :=
  rooted.alike ⟨rfl, fun _ => ⟨rfl, rfl, rfl⟩⟩ quiet

/-- A step keeps the tree when a main thread that exits leaves no zombie child. -/
theorem step_rooted {g : Family} {action : Action} (covered : Covered f.kernel) (rooted : Rooted f)
    (allowed : ReapsFirst f.kernel action) (stepped : f.step action = some (g, events)) : Rooted g := by
  unfold step at stepped
  rw [Option.map_eq_some_iff] at stepped
  obtain ⟨⟨after, emitted⟩, moved, result⟩ := stepped
  simp only [Prod.mk.injEq] at result
  obtain ⟨rfl, rfl⟩ := result
  unfold Sched.step at moved
  split at moved
  · contradiction
  · cases current : f.kernel.current with
    | none =>
        have quiet : f.exits action = f.gone := by cases action <;> simp [exits, current]
        cases action with
        | scheduler =>
            simp only [current, Option.some.injEq] at moved
            cases result : scheduler f.kernel with
            | error message =>
                simp only [result, settle, Prod.mk.injEq] at moved
                obtain ⟨rfl, rfl⟩ := moved
                exact rooted.halted .scheduler quiet
            | ok pair =>
                obtain ⟨mid, listed⟩ := pair
                simp only [result, settle, Prod.mk.injEq] at moved
                obtain ⟨rfl, rfl⟩ := moved
                exact rooted.alike (scheduler_alike result) quiet
        | _ => simp [current] at moved
    | some task =>
        obtain ⟨s, t⟩ := task
        have running := covered.runs s t current
        have used := covered.used s t (by simp [running])
        simp only [current, Option.map_eq_some_iff] at moved
        obtain ⟨result, operated, settling⟩ := moved
        cases result with
        | error message =>
            simp only [settle, Prod.mk.injEq] at settling
            obtain ⟨rfl, rfl⟩ := settling
            apply rooted.halted action
            cases action with
            | exit code => simp [operate] at operated
            | _ => rfl
        | ok pair =>
            obtain ⟨next, listed⟩ := pair
            simp only [settle, Prod.mk.injEq] at settling
            obtain ⟨rfl, rfl⟩ := settling
            have other (ends : ∀ code, action ≠ .exit code) : f.exits action = f.gone := by
              cases action with
              | exit code => exact absurd rfl (ends code)
              | _ => rfl
            cases operate_change operated with
            | alike ends alike =>
                apply rooted.alike alike
                cases action with
                | exit code =>
                    have apart := ends code rfl
                    simp only [exits, current]
                    split
                    · rename_i main
                      simp only [Option.some.injEq, Prod.mk.injEq] at main
                      exact absurd main.2 apart
                    · rfl
                | _ => rfl
            | born ends np born =>
                rw [other ends]
                exact rooted.born born current used
            | freed ends np freed =>
                rw [other ends]
                exact rooted.freed freed
            | left code exits main left =>
                subst exits main
                have gone : f.exits (.exit code) = Function.update f.gone (f.kernel.pool s).pid true := by
                  simp [Family.exits, current]
                rw [gone]
                exact rooted.left left used (allowed s current)

theorem initial_rooted (begun : Initial f) : Rooted f := by
  obtain ⟨kernel, made, quiet⟩ := begun
  have first (r : Slot) (present : (f.kernel.pool r).state ≠ .unused) : r = 0 := by
    by_contra other
    exact present (by simp [kernel, freshKernel, other])
  constructor
  · intro r zombie
    obtain rfl := first r (by simp [zombie])
    simp [kernel, freshKernel] at zombie
  · intro r above present parent
    simp [kernel, freshKernel] at parent
  · intro r present
    obtain rfl := first r present
    simp [kernel, freshKernel]
  · intro r u present there same
    rw [first r present, first u there]
  · intro r state
    rw [quiet]
  · intro pid later
    rw [quiet]

/-- A `wait` that finds a zombie child collects one that it asked for. -/
theorem wait_collects {pid : Int} (child : isChild k s pid np = true) (zombie : (k.pool np).state = .zombie) (t : Tid) :
    ∃ r, isChild k s pid r = true ∧ (k.pool r).state = .zombie ∧ wait k s t pid = .ok (collect k r) := by
  cases found : (List.finRange nproc).find? fun r => isChild k s pid r && (k.pool r).state == .zombie with
  | none =>
      have refused := List.find?_eq_none.mp found np (List.mem_finRange np)
      simp [child, zombie] at refused
  | some r =>
      have chosen := List.find?_some found
      simp only [Bool.and_eq_true, beq_iff_eq] at chosen
      refine ⟨r, chosen.1, chosen.2, ?_⟩
      simp [wait, found, collect]

/-- A zombie with a parent is collected by that parent. -/
theorem Rooted.reapable (rooted : Rooted f) (zombie : (f.kernel.pool np).state = .zombie) :
    Reapable f.kernel np := by
  obtain ⟨s, parent⟩ := Option.isSome_iff_exists.mp (rooted.zombies np zombie)
  have present : (f.kernel.pool np).state ≠ .unused := by simp [zombie]
  obtain ⟨used, _, _⟩ := rooted.parents np s present parent
  have positive := (rooted.pids np present).1
  refine ⟨s, parent, used, fun t => ⟨?_, ?_⟩⟩
  · have asked : isChild f.kernel s (f.kernel.pool np).pid np = true := by simp [isChild, parent, zombie]
    obtain ⟨r, child, dead, waited⟩ := wait_collects asked zombie t
    have same : (f.kernel.pool r).pid = (f.kernel.pool np).pid := by
      simp only [isChild, Bool.and_eq_true, Bool.or_eq_true, decide_eq_true_eq, beq_iff_eq] at child
      omega
    rwa [rooted.distinct r np (by simp [dead]) present same] at waited
  · have asked : isChild f.kernel s (-1) np = true := by simp [isChild, parent, zombie]
    obtain ⟨r, child, dead, waited⟩ := wait_collects asked zombie t
    simp only [isChild, Bool.and_eq_true, beq_iff_eq] at child
    exact ⟨r, child.1.2, dead, waited⟩

/-- Some process above each one that exists has not exited. -/
theorem Rooted.attended (rooted : Rooted f) (present : (f.kernel.pool np).state ≠ .unused) :
    ∃ pid, f.Descends (f.kernel.pool np).pid pid ∧ f.gone pid = false := by
  cases state : (f.kernel.pool np).state with
  | unused => exact absurd state present
  | used => exact ⟨_, .refl, rooted.alive np state⟩
  | zombie =>
      obtain ⟨s, parent⟩ := Option.isSome_iff_exists.mp (rooted.zombies np state)
      obtain ⟨used, _, made⟩ := rooted.parents np s present parent
      exact ⟨_, .single made, rooted.alive s used⟩

/-- When no process exits with a zombie child, each zombie can be collected by its parent, each process that exists has
a process above it that has not exited, and `allocproc` fails only when each slot is in use or can be collected. -/
theorem zombies_reapable {f : Family} {trace : List Event}
    (reached : Reaches step (fun f _ action => ReapsFirst f.kernel action) Initial f trace) :
    (∀ np, (f.kernel.pool np).state = .zombie → Reapable f.kernel np) ∧
      (∀ np, (f.kernel.pool np).state ≠ .unused → ∃ pid, f.Descends (f.kernel.pool np).pid pid ∧ f.gone pid = false) ∧
      (allocproc f.kernel = none → ∀ np, (f.kernel.pool np).state = .used ∨ Reapable f.kernel np) := by
  have kept : Covered f.kernel ∧ Rooted f := by
    refine reached.invariant (fun f _ => Covered f.kernel ∧ Rooted f) ?_ ?_
    · intro f begun
      refine ⟨?_, initial_rooted begun⟩
      rw [begun.1]
      exact freshKernel_kept.1
    · intro f trace action g events ⟨covered, rooted⟩ allowed stepped
      refine ⟨?_, step_rooted covered rooted allowed stepped⟩
      unfold step at stepped
      rw [Option.map_eq_some_iff] at stepped
      obtain ⟨⟨after, emitted⟩, moved, result⟩ := stepped
      simp only [Prod.mk.injEq] at result
      rw [← result.1]
      exact (step_kept covered moved).1
  obtain ⟨_, rooted⟩ := kept
  refine ⟨fun np zombie => rooted.reapable zombie, fun np present => rooted.attended present, fun full np => ?_⟩
  have present : (f.kernel.pool np).state ≠ .unused := by
    intro free
    unfold allocproc at full
    split at full
    · rename_i none
      have other := List.find?_eq_none.mp none np (List.mem_finRange np)
      simp [free] at other
    · contradiction
  cases state : (f.kernel.pool np).state with
  | unused => exact absurd state present
  | used => exact Or.inl rfl
  | zombie => exact Or.inr (rooted.reapable state)

def first : Family := { kernel := freshKernel, maker := fun _ => none, gone := fun _ => false }

/-- A child exits before its parent collects it. -/
theorem zombies_reapable_run : ∃ f trace,
    Reaches step (fun f _ action => ReapsFirst f.kernel action) Initial f trace ∧
      (f.kernel.pool 1).state = .zombie ∧ Reapable f.kernel 1 := by
  obtain ⟨f, trace, reached, zombie⟩ := replay_witness step (fun f _ action => ReapsFirst f.kernel action) Initial
    [.scheduler, .fork, .yield, .scheduler, .exit 7] first ⟨rfl, rfl, rfl⟩
    (fun f _ => decide ((f.kernel.pool 1).state = .zombie)) (by decide +kernel)
  have dead := of_decide_eq_true zombie
  exact ⟨f, trace, reached, dead, (zombies_reapable reached).1 1 dead⟩

/-- A process exits after its child, and nobody can collect the child. -/
theorem orphan_zombie_stays : ¬∀ f trace, Reaches step (fun _ _ _ => True) Initial f trace →
    ∀ np, (f.kernel.pool np).state = .zombie → Reapable f.kernel np := by
  intro claim
  obtain ⟨f, trace, reached, lost⟩ := replay_witness step (fun _ _ _ => True) Initial
    [.scheduler, .fork, .yield, .scheduler, .fork, .yield, .scheduler, .exit 0, .scheduler, .yield, .scheduler, .exit 0]
    first ⟨rfl, rfl, rfl⟩
    (fun f _ => decide ((f.kernel.pool 2).state = .zombie ∧ (f.kernel.pool 2).parent = none)) (by decide +kernel)
  obtain ⟨zombie, orphan⟩ := of_decide_eq_true lost
  obtain ⟨s, parent, _⟩ := claim f trace reached 2 zombie
  simp [orphan] at parent

end Family

end BtbuOs.Sched
