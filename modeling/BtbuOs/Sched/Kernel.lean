import BtbuOs.Lib.Machine
import BtbuOs.Proc.Queue
import BtbuOs.Sync.Process

namespace BtbuOs.Sched

open Sync (nthread Tid ThreadState)

/-- The macro `NPROC`. -/
abbrev nproc : Nat := 128

instance : NeZero nproc := ⟨by decide⟩

instance : NeZero (nproc * nthread) := ⟨by decide⟩

/-- The macro `QUEUE_SIZE`. -/
def queueSize : Nat := 1024

/-- The macro `BIG_STRIDE`. -/
def bigStride : Nat := 65536

/-- A process is named by its index in `pool`. -/
abbrev Slot := Fin nproc

/-- The values of `enum procstate`. -/
inductive ProcState where
  | unused | used | zombie
  deriving DecidableEq

/-- The numbers that `task_to_id` makes. -/
abbrev TaskId := Fin (nproc * nthread)

/-- A thread in use has its index as `tid`. -/
def taskToId (s : Slot) (t : Tid) : TaskId :=
  ⟨s.val * nthread + t.val, by
    have := s.isLt
    have := t.isLt
    simp only [nproc, nthread] at *
    omega⟩

/-- A negative index gives NULL; `popQueue` returns it as `none`. -/
def idToTask (id : TaskId) : Slot × Tid :=
  (⟨id.val / nthread, Nat.div_lt_of_lt_mul (Nat.lt_of_lt_of_eq id.isLt (Nat.mul_comm nproc nthread))⟩,
    ⟨id.val % nthread, Nat.mod_lt _ (by decide)⟩)

/-- The fields of `struct proc` that the scheduler, `fork`, `wait` and `exit` use. -/
structure Process where
  state : ProcState
  pid : Nat
  parent : Option Slot
  exitCode : Int
  stride : Nat
  priority : Nat
  threads : Tid → ThreadState
  threadExit : Tid → Int

/-- The run queue, the process table and the thread that runs. -/
structure Kernel where
  current : Option (Slot × Tid)
  pool : Slot → Process
  queue : Queue TaskId
  nextPid : Nat
  halted : Bool

/-- The events show the decisions of the scheduler and the results of the calls. -/
inductive Event where
  | switched (s : Slot) (t : Tid)
  | thrownOut (id : TaskId)
  | reaped (pid : Nat) (code : Int)
  | returned (value : Int)
  | panicked (message : String)
  deriving DecidableEq

namespace Kernel

def setProcess (k : Kernel) (s : Slot) (p : Process) : Kernel := { k with pool := Function.update k.pool s p }

def setThread (k : Kernel) (s : Slot) (t : Tid) (state : ThreadState) : Kernel :=
  k.setProcess s { k.pool s with threads := Function.update (k.pool s).threads t state }

end Kernel

/-- The length that `fetch_task` computes is 0 for a full ring. -/
def fetchCount (q : Queue TaskId) : Nat :=
  let count := if q.front ≤ q.tail && !q.empty then q.tail - q.front else q.size - q.front + q.tail
  if q.empty then 0 else count

/-- One round of the scan keeps the first RUNNABLE entry of the smallest stride. -/
def scanEntry (k : Kernel) (best : Option Nat × Nat) (i : Nat) : Option Nat × Nat :=
  let idx := (k.queue.front + i) % k.queue.size
  let task := idToTask (k.queue.data idx)
  if (k.pool task.1).threads task.2 ≠ .runnable then best
  else if (k.pool task.1).stride < best.2 then (some idx, (k.pool task.1).stride)
  else best

def scan (k : Kernel) : Option Nat × Nat :=
  (List.range (fetchCount k.queue)).foldl (scanEntry k) (none, 2 ^ 64 - 1)

/-- The entries behind the chosen one move up by one place. -/
def removeEntry (q : Queue TaskId) (idx : Nat) : Queue TaskId :=
  let last := (q.tail + q.size - 1) % q.size
  { q with
    data := Ring.shift q.data q.size last q.size idx
    tail := last
    empty := if q.front == last then true else q.empty }

/-- Without a RUNNABLE entry the oldest one is popped. -/
def fetchTask (k : Kernel) : Option TaskId × Kernel :=
  if k.queue.empty then (none, k)
  else
    match (scan k).1 with
    | none => ((popQueue k.queue).1, { k with queue := (popQueue k.queue).2 })
    | some idx =>
        let id := k.queue.data idx
        let k := { k with queue := removeEntry k.queue idx }
        let p := k.pool (idToTask id).1
        (some id, k.setProcess (idToTask id).1
          { p with stride := (p.stride + bigStride / p.priority) % 2 ^ 64 })

def addTask (k : Kernel) (s : Slot) (t : Tid) : Except String Kernel :=
  match pushQueue k.queue (taskToId s t) with
  | .error message => .error message
  | .ok queue => .ok { k with queue }

/-- The thread becomes RUNNABLE and gets an entry. -/
def makeReady (k : Kernel) (s : Slot) (t : Tid) : Except String Kernel := addTask (k.setThread s t .runnable) s t

def allocproc (k : Kernel) : Option (Slot × Kernel) :=
  match (List.finRange nproc).find? fun s => (k.pool s).state = .unused with
  | none => none
  | some s =>
      some (s, { k.setProcess s { k.pool s with
          state := .used, pid := k.nextPid, parent := none, exitCode := 0, stride := 0, priority := 16 } with
        nextPid := k.nextPid + 1 })

def allocthread (k : Kernel) (s : Slot) : Option (Tid × Kernel) :=
  match (List.finRange nthread).find? fun t => (k.pool s).threads t = .unused with
  | none => none
  | some t =>
      some (t, k.setProcess s { k.pool s with
        threads := Function.update (k.pool s).threads t .used
        threadExit := Function.update (k.pool s).threadExit t 0 })

/-- `freeproc` keeps the run queue as it is. -/
def freeproc (k : Kernel) (s : Slot) : Kernel :=
  k.setProcess s { k.pool s with threads := fun _ => .unused, state := .unused }

/-- A fetched thread that is not RUNNABLE is thrown out. -/
def scheduler (k : Kernel) : Except String (Kernel × List Event) :=
  match fetchTask k with
  | (none, _) => .error "all app are over!\n"
  | (some id, k) =>
      let (s, t) := idToTask id
      if (k.pool s).threads t ≠ .runnable then .ok (k, [.thrownOut id])
      else .ok ({ k.setThread s t .running with current := some (s, t) }, [.switched s t])

def yield (k : Kernel) (s : Slot) (t : Tid) : Except String (Kernel × List Event) :=
  match makeReady k s t with
  | .error message => .error message
  | .ok k => .ok ({ k with current := none }, [])

/-- The three blocking primitives mark the thread SLEEPING before they call `sched`. -/
def sleep (k : Kernel) (s : Slot) (t : Tid) : Kernel := { k.setThread s t .sleeping with current := none }

/-- A waker takes the thread from a wait queue of its process, whose members are asleep. -/
def wake (k : Kernel) (s : Slot) (t : Tid) : Option (Except String (Kernel × List Event)) :=
  if (k.pool s).threads t = .sleeping then
    match makeReady k s t with
    | .error message => some (.error message)
    | .ok k => some (.ok (k, []))
  else none

def sysThreadCreate (k : Kernel) (s : Slot) : Except String (Kernel × List Event) :=
  match allocthread k s with
  | none => .ok (k, [.returned (-1)])
  | some (t, k) =>
      match makeReady k s t with
      | .error message => .error message
      | .ok k => .ok (k, [.returned t.val])

/-- Only thread 0 of the new process exists, because a free slot has no threads. -/
def fork (k : Kernel) (s : Slot) : Except String (Kernel × List Event) :=
  match allocproc k with
  | none => .error "allocproc\n"
  | some (np, k) =>
      match allocthread (k.setProcess np { k.pool np with parent := some s }) np with
      | none => .error "threads[-1]"
      | some (t, k) =>
          match makeReady k np t with
          | .error message => .error message
          | .ok k => .ok (k, [.returned (k.pool np).pid])

/-- A failed `namei` is the caller's input; `bin_loader` needs thread 0. -/
def sysSpawn (k : Kernel) (s : Slot) (found : Bool) : Except String (Kernel × List Event) :=
  if !found then .ok (k, [.returned (-1)])
  else
    match allocproc k with
    | none => .ok (k, [.returned (-1)])
    | some (np, k) =>
        match allocthread (k.setProcess np { k.pool np with parent := some s }) np with
        | none => .error "proc alloc main thread failed!"
        | some (t, k) =>
            if t ≠ 0 then .error "proc alloc main thread failed!"
            else
              match makeReady k np 0 with
              | .error message => .error message
              | .ok k => .ok (k, [.returned (k.pool np).pid])

/-- The condition of the scan in `wait`. -/
def isChild (k : Kernel) (s : Slot) (pid : Int) (np : Slot) : Bool :=
  (k.pool np).state ≠ .unused && (k.pool np).parent == some s && (pid ≤ 0 || (k.pool np).pid == pid)

/-- One round of `wait`: collect the first zombie child, fail without children, or give up the processor. -/
def wait (k : Kernel) (s : Slot) (t : Tid) (pid : Int) : Except String (Kernel × List Event) :=
  match (List.finRange nproc).find? fun np => isChild k s pid np && (k.pool np).state == .zombie with
  | some np =>
      .ok (k.setProcess np { k.pool np with state := .unused },
        [.reaped (k.pool np).pid (k.pool np).exitCode, .returned (k.pool np).pid])
  | none =>
      if (List.finRange nproc).any (isChild k s pid) then yield k s t
      else .ok (k, [.returned (-1)])

/-- The main thread takes its process with it; a process with a parent becomes a zombie. -/
def exit (k : Kernel) (s : Slot) (t : Tid) (code : Int) : Kernel :=
  let k := k.setProcess s { k.pool s with
    threads := Function.update (k.pool s).threads t .exited
    threadExit := Function.update (k.pool s).threadExit t code }
  if t = 0 then
    let k := freeproc (k.setProcess s { k.pool s with exitCode := code }) s
    let k := if (k.pool s).parent.isSome then k.setProcess s { k.pool s with state := .zombie } else k
    { k with
      pool := fun np => if (k.pool np).parent = some s then { k.pool np with parent := none } else k.pool np
      current := none }
  else { k with current := none }

def sysWaittid (k : Kernel) (s : Slot) (t : Tid) (tid : Int) : Kernel × List Event :=
  if inside : 0 ≤ tid ∧ tid < nthread then
    let target : Tid := ⟨tid.toNat, Sync.index_lt inside⟩
    if (k.pool s).threads target = .unused ∨ target = t then (k, [.returned (-1)])
    else if (k.pool s).threads target ≠ .exited then (k, [.returned (-2)])
    else (k.setThread s target .unused, [.returned ((k.pool s).threadExit target)])
  else (k, [.returned (-1)])

def sysSetPriority (k : Kernel) (s : Slot) (prio : Int) : Kernel × List Event :=
  if prio < 2 then (k, [.returned (-1)])
  else (k.setProcess s { k.pool s with priority := prio.toNat }, [.returned prio])

/-- One action is a round of the scheduler loop or a kernel operation of the running thread. -/
inductive Action where
  | scheduler
  | yield
  | sleep
  | wake (t : Tid)
  | threadCreate
  | fork
  | spawn (found : Bool)
  | wait (pid : Int)
  | waittid (tid : Int)
  | setPriority (prio : Int)
  | exit (code : Int)
  deriving DecidableEq

/-- The operation of the running thread. -/
def operate (k : Kernel) (s : Slot) (t : Tid) : Action → Option (Except String (Kernel × List Event))
  | .scheduler => none
  | .yield => some (yield k s t)
  | .sleep => some (.ok (sleep k s t, []))
  | .wake u => wake k s u
  | .threadCreate => some (sysThreadCreate k s)
  | .fork => some (fork k s)
  | .spawn found => some (sysSpawn k s found)
  | .wait pid => some (wait k s t pid)
  | .waittid tid => some (.ok (sysWaittid k s t tid))
  | .setPriority prio => some (.ok (sysSetPriority k s prio))
  | .exit code => some (.ok (exit k s t code, []))

/-- A panic halts the kernel before the operation has changed anything. -/
def settle (k : Kernel) : Except String (Kernel × List Event) → Kernel × List Event
  | .ok result => result
  | .error message => ({ k with halted := true }, [.panicked message])

/-- The scheduler runs whenever no thread does. -/
def step (k : Kernel) (action : Action) : Option (Kernel × List Event) :=
  if k.halted then none
  else
    match k.current, action with
    | none, .scheduler => some (settle k (scheduler k))
    | none, _ => none
    | some (s, t), action => (operate k s t action).map (settle k)

/-- `proc_init` and `load_init_app` leave one process with its main thread in the queue. -/
def freshKernel : Kernel where
  current := none
  pool s := {
    state := if s = 0 then .used else .unused
    pid := if s = 0 then 1 else 0
    parent := none
    exitCode := 0
    stride := 0
    priority := if s = 0 then 16 else 0
    threads := fun t => if s = 0 ∧ t = 0 then .runnable else .unused
    threadExit := fun _ => 0 }
  queue := { data := fun _ => 0, size := queueSize, front := 0, tail := 1, empty := false }
  nextPid := 2
  halted := false

end BtbuOs.Sched
