import BtbuOs.Sync.Process

namespace BtbuOs.Sync

/-- The events record what a thread observes of the primitives. -/
inductive Event where
  | locked (t : Tid) (m : LockId)
  | unlocked (t : Tid) (m : LockId)
  | downStarted (t : Tid) (s : LockId)
  | acquired (t : Tid) (s : LockId)
  | downReturned (t : Tid) (s : LockId)
  | up (t : Tid) (s : LockId)
  | started (t : Tid)
  | exited (t : Tid)
  | returned (t : Tid) (value : Int)
  deriving DecidableEq

/-- A full pool gives NULL. -/
def mutexCreate (p : Proc) (blocking : Int) : Option LockId × Proc :=
  if inside : p.nextMutexId < lockPoolSize then
    let id : LockId := ⟨p.nextMutexId, inside⟩
    let old := p.mutexPool id
    let blocking := decide (blocking ≠ 0)
    let waitQueue := if blocking then initQueue waitQueueMaxLength old.waitQueue.data else old.waitQueue
    (some id, { p.setMutex id { blocking, locked := false, waitQueue } with
      nextMutexId := p.nextMutexId + 1 })
  else (none, p)

/-- The running thread `t` locks a free mutex, polls a spin mutex or waits for a blocking one. -/
def mutexLock (p : Proc) (t : Tid) (m : LockId) : Except String (Proc × List Event) :=
  if (p.mutexPool m).locked = false then
    .ok ({ p.setLocked m true with
      mutexAllocation := p.mutexAllocation.set t m 1 }, [.locked t m])
  else if (p.mutexPool m).blocking = false then
    .ok ({ p with mutexRequest := p.mutexRequest.set t m 1 }.yield t (.spinning m), [])
  else
    match p.block t (.mutex m) (.inLock m) with
    | .error message => .error message
    | .ok p => .ok ({ p with mutexRequest := p.mutexRequest.set t m 1 }, [])

/-- Both waiting paths of `mutex_lock` end with these two writes. -/
def mutexLockTail (p : Proc) (t : Tid) (m : LockId) : Proc × List Event :=
  ({ p.setCont t .user with
    mutexRequest := p.mutexRequest.set t m 0
    mutexAllocation := p.mutexAllocation.set t m 1 }, [.locked t m])

/-- The unlock of a blocking mutex hands it to the oldest waiter with `locked` still set. -/
def mutexUnlock (p : Proc) (t : Tid) (m : LockId) : Proc × List Event :=
  if (p.mutexPool m).blocking then
    match p.wake (.mutex m) with
    | (none, p) =>
        ({ p.setLocked m false with
          mutexAllocation := p.mutexAllocation.set t m 0 }, [.unlocked t m])
    | (some next, p) =>
        ({ p with
          mutexAllocation := (p.mutexAllocation.set t m 0).set next m 1
          mutexRequest := p.mutexRequest.set next m 0 }, [.unlocked t m])
  else
    ({ p.setLocked m false with
      mutexAllocation := p.mutexAllocation.set t m 0 }, [.unlocked t m])

def semaphoreCreate (p : Proc) (count : Int) : Option LockId × Proc :=
  if inside : p.nextSemaphoreId < lockPoolSize then
    let id : LockId := ⟨p.nextSemaphoreId, inside⟩
    let old := p.semaphorePool id
    (some id, { p.setSemaphore id
      { count, waitQueue := initQueue waitQueueMaxLength old.waitQueue.data } with
      nextSemaphoreId := p.nextSemaphoreId + 1 })
  else (none, p)

/-- The caller gives back one unit, if it holds one, before the count goes up. -/
def semaphoreRelease (p : Proc) (t : Tid) (s : LockId) : Proc :=
  let p := if p.semAllocation t s > 0 then
    { p with semAllocation := p.semAllocation.set t s (p.semAllocation t s - 1) } else p
  p.setCount s ((p.semaphorePool s).count + 1)

def semaphoreUp (p : Proc) (t : Tid) (s : LockId) : Except String (Proc × List Event) :=
  let p := semaphoreRelease p t s
  if (p.semaphorePool s).count ≤ 0 then
    match p.wake (.semaphore s) with
    | (none, _) => .error "count <= 0 after up but wait queue is empty?"
    | (some next, p) =>
        .ok ({ p with
          semRequest := p.semRequest.set next s 0
          semAllocation := p.semAllocation.set next s (p.semAllocation next s + 1) },
          [.up t s, .acquired next s])
  else .ok (p, [.up t s])

def semaphoreDown (p : Proc) (t : Tid) (s : LockId) : Except String (Proc × List Event) :=
  let p := p.setCount s ((p.semaphorePool s).count - 1)
  if (p.semaphorePool s).count < 0 then
    match p.block t (.semaphore s) (.inDown s) with
    | .error message => .error message
    | .ok p => .ok ({ p with semRequest := p.semRequest.set t s 1 }, [.downStarted t s])
  else
    .ok ({ p with semAllocation := p.semAllocation.set t s (p.semAllocation t s + 1) },
      [.downStarted t s, .acquired t s, .downReturned t s])

/-- The woken thread updates the matrices once more when it runs again. -/
def semaphoreDownTail (p : Proc) (t : Tid) (s : LockId) : Proc × List Event :=
  ({ p.setCont t .user with
    semRequest := p.semRequest.set t s 0
    semAllocation := p.semAllocation.set t s (p.semAllocation t s + 1) }, [.downReturned t s])

def condvarCreate (p : Proc) : Option LockId × Proc :=
  if inside : p.nextCondvarId < lockPoolSize then
    let id : LockId := ⟨p.nextCondvarId, inside⟩
    let old := p.condvarPool id
    (some id, { p.setCondvar id { waitQueue := initQueue waitQueueMaxLength old.waitQueue.data } with
      nextCondvarId := p.nextCondvarId + 1 })
  else (none, p)

/-- A signal without a waiter does nothing. -/
def condSignal (p : Proc) (c : LockId) : Proc := (p.wake (.condvar c)).2

/-- The mutex is unlocked first and locked again by `condWaitTail` after the wake-up. -/
def condWait (p : Proc) (t : Tid) (c m : LockId) : Except String (Proc × List Event) :=
  let (p, events) := mutexUnlock p t m
  match p.block t (.condvar c) (.inWait c m) with
  | .error message => .error message
  | .ok p => .ok (p, events)

def condWaitTail (p : Proc) (t : Tid) (m : LockId) : Except String (Proc × List Event) :=
  mutexLock (p.setCont t .user) t m

end BtbuOs.Sync
