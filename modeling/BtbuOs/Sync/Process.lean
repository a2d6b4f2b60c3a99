import BtbuOs.Proc.Queue

namespace BtbuOs.Sync

/-- The macro `NTHREAD`. -/
abbrev nthread : Nat := 16

/-- The macro `LOCK_POOL_SIZE`. -/
abbrev lockPoolSize : Nat := 8

/-- The macro `WAIT_QUEUE_MAX_LENGTH`. -/
def waitQueueMaxLength : Nat := 16

abbrev Tid := Fin nthread

instance : NeZero nthread := ⟨by decide⟩

/-- A number between the bounds of an array is one of its indices. -/
theorem index_lt {n : Int} {size : Nat} (inside : 0 ≤ n ∧ n < size) : n.toNat < size := by omega
abbrev LockId := Fin lockPoolSize

/-- The values of `enum threadstate`. -/
inductive ThreadState where
  | unused | used | sleeping | runnable | running | exited
  deriving DecidableEq

/-- A wait queue stores the threads that `task_to_id` encodes. -/
structure Mutex where
  blocking : Bool
  locked : Bool
  waitQueue : Queue Tid

structure Semaphore where
  count : Int
  waitQueue : Queue Tid

structure Condvar where
  waitQueue : Queue Tid

/-- A wait queue belongs to one primitive of the process. -/
inductive WaitId where
  | mutex (id : LockId)
  | semaphore (id : LockId)
  | condvar (id : LockId)
  deriving DecidableEq

/-- The saved context of a thread is the switch point that it left. -/
inductive Cont where
  | user
  | spinning (m : LockId)
  | inLock (m : LockId)
  | inDown (s : LockId)
  | inWait (c m : LockId)
  deriving DecidableEq

/-- A thread that called `sched` after its push waits in this queue. -/
def Cont.waitId : Cont → Option WaitId
  | .user | .spinning _ => none
  | .inLock m => some (.mutex m)
  | .inDown s => some (.semaphore s)
  | .inWait c _ => some (.condvar c)

abbrev Matrix := Tid → LockId → Int

/-- The fields of `struct proc` that the primitives read or write, and the running thread. -/
@[ext]
structure Proc where
  current : Option Tid
  threads : Tid → ThreadState
  conts : Tid → Cont
  exitCode : Tid → Int
  nextMutexId : Nat
  nextSemaphoreId : Nat
  nextCondvarId : Nat
  mutexPool : LockId → Mutex
  semaphorePool : LockId → Semaphore
  condvarPool : LockId → Condvar
  deadlockDetectEnable : Bool
  mutexAllocation : Matrix
  mutexRequest : Matrix
  semAllocation : Matrix
  semRequest : Matrix

/-- The write changes one entry of a matrix. -/
def Matrix.set (matrix : Matrix) (t : Tid) (id : LockId) (value : Int) : Matrix :=
  fun row column => if row = t ∧ column = id then value else matrix row column

@[simp] theorem Matrix.set_self (matrix : Matrix) (t : Tid) (id : LockId) (value : Int) :
    matrix.set t id value t id = value := by
  simp [set]

theorem Matrix.set_of_ne (matrix : Matrix) {t row : Tid} {id column : LockId} (value : Int)
    (other : ¬(row = t ∧ column = id)) : matrix.set t id value row column = matrix row column :=
  if_neg other

/-- The later write of an entry wins. -/
theorem Matrix.set_set (matrix : Matrix) (t : Tid) (id : LockId) (old value : Int) :
    (matrix.set t id old).set t id value = matrix.set t id value := by
  funext row column
  by_cases same : row = t ∧ column = id <;> simp [set, same]

namespace Proc

def waitQueue (p : Proc) : WaitId → Queue Tid
  | .mutex id => (p.mutexPool id).waitQueue
  | .semaphore id => (p.semaphorePool id).waitQueue
  | .condvar id => (p.condvarPool id).waitQueue

def setMutex (p : Proc) (id : LockId) (m : Mutex) : Proc :=
  { p with mutexPool := Function.update p.mutexPool id m }

def setSemaphore (p : Proc) (id : LockId) (s : Semaphore) : Proc :=
  { p with semaphorePool := Function.update p.semaphorePool id s }

def setCondvar (p : Proc) (id : LockId) (c : Condvar) : Proc :=
  { p with condvarPool := Function.update p.condvarPool id c }

def setWaitQueue (p : Proc) : WaitId → Queue Tid → Proc
  | .mutex id, q => p.setMutex id { p.mutexPool id with waitQueue := q }
  | .semaphore id, q => p.setSemaphore id { p.semaphorePool id with waitQueue := q }
  | .condvar id, q => p.setCondvar id { waitQueue := q }

def setLocked (p : Proc) (id : LockId) (locked : Bool) : Proc :=
  p.setMutex id { p.mutexPool id with locked }

def setCount (p : Proc) (id : LockId) (count : Int) : Proc :=
  p.setSemaphore id { p.semaphorePool id with count }

def setThread (p : Proc) (t : Tid) (state : ThreadState) : Proc :=
  { p with threads := Function.update p.threads t state }

def setCont (p : Proc) (t : Tid) (cont : Cont) : Proc :=
  { p with conts := Function.update p.conts t cont }

/-- `sched` saves the context of the running thread and switches to the scheduler. -/
def sched (p : Proc) (t : Tid) (cont : Cont) : Proc :=
  { p.setCont t cont with current := none }

/-- `yield` marks the thread RUNNABLE, queues it with `add_task` and calls `sched`. -/
def yield (p : Proc) (t : Tid) (cont : Cont) : Proc :=
  (p.setThread t .runnable).sched t cont

/-- The three blocking primitives push the thread, mark it SLEEPING and call `sched`. -/
def block (p : Proc) (t : Tid) (w : WaitId) (cont : Cont) : Except String Proc :=
  match pushQueue (p.waitQueue w) t with
  | .error message => .error message
  | .ok q => .ok (((p.setWaitQueue w q).setThread t .sleeping).sched t cont)

/-- A waker pops the oldest waiter, marks it RUNNABLE and queues it with `add_task`. -/
def wake (p : Proc) (w : WaitId) : Option Tid × Proc :=
  match popQueue (p.waitQueue w) with
  | (none, q) => (none, p.setWaitQueue w q)
  | (some t, q) => (some t, (p.setWaitQueue w q).setThread t .runnable)

end Proc

end BtbuOs.Sync
