import BtbuOs.Lib.Machine
import BtbuOs.Sync.Primitives
import BtbuOs.Sync.Detect

namespace BtbuOs.Sync

/-- One action is a system call of the running thread, its preemption or a scheduler choice. -/
inductive Action where
  | schedule (t : Tid)
  | yield
  | mutexCreate (blocking : Int)
  | mutexLock (mutexId : Int)
  | mutexUnlock (mutexId : Int)
  | semaphoreCreate (resCount : Int)
  | semaphoreUp (semaphoreId : Int)
  | semaphoreDown (semaphoreId : Int)
  | condvarCreate
  | condvarSignal (condId : Int)
  | condvarWait (condId mutexId : Int)
  | enableDeadlockDetect (isEnable : Int)
  | threadCreate
  | waittid (tid : Int)
  | exit (code : Int)
  deriving DecidableEq

/-- The error value of a refused request. -/
def deadlockCode : Int := -0xDEAD

/-- The identifier check of the system calls. -/
def poolIndex (next : Nat) (id : Int) : Option LockId :=
  if inside : 0 ≤ id ∧ id < next ∧ id < lockPoolSize then some ⟨id.toNat, by omega⟩ else none

/-- A panic ends the run; a call that was not switched away returns its value. -/
def complete (t : Tid) (value : Int) : Except String (Proc × List Event) → Option (Proc × List Event)
  | .error _ => none
  | .ok (p, events) => some (p, if p.current = some t then events ++ [.returned t value] else events)

/-- The result of a creation is the new identifier or -1. -/
def completeCreate (t : Tid) : Option LockId × Proc → Option (Proc × List Event)
  | (none, p) => some (p, [.returned t (-1)])
  | (some id, p) => some (p, [.returned t id.val])

def sysMutexLock (p : Proc) (t : Tid) (mutexId : Int) : Option (Proc × List Event) :=
  match poolIndex p.nextMutexId mutexId with
  | none => some (p, [.returned t (-1)])
  | some m =>
      if p.deadlockDetectEnable then
        if deadlockDetect { p with mutexRequest := p.mutexRequest.set t m 1 } then
          some ({ p with mutexRequest := p.mutexRequest.set t m 0 }, [.returned t deadlockCode])
        else complete t 0 (mutexLock { p with mutexRequest := p.mutexRequest.set t m 0 } t m)
      else complete t 0 (mutexLock p t m)

def sysMutexUnlock (p : Proc) (t : Tid) (mutexId : Int) : Option (Proc × List Event) :=
  match poolIndex p.nextMutexId mutexId with
  | none => some (p, [.returned t (-1)])
  | some m => complete t 0 (.ok (mutexUnlock p t m))

def sysSemaphoreUp (p : Proc) (t : Tid) (semaphoreId : Int) : Option (Proc × List Event) :=
  match poolIndex p.nextSemaphoreId semaphoreId with
  | none => some (p, [.returned t (-1)])
  | some s => complete t 0 (semaphoreUp p t s)

def sysSemaphoreDown (p : Proc) (t : Tid) (semaphoreId : Int) : Option (Proc × List Event) :=
  match poolIndex p.nextSemaphoreId semaphoreId with
  | none => some (p, [.returned t (-1)])
  | some s =>
      if p.deadlockDetectEnable then
        if deadlockDetect { p with semRequest := p.semRequest.set t s 1 } then
          some ({ p with semRequest := p.semRequest.set t s 0 }, [.returned t deadlockCode])
        else complete t 0 (semaphoreDown { p with semRequest := p.semRequest.set t s 0 } t s)
      else complete t 0 (semaphoreDown p t s)

def sysCondvarSignal (p : Proc) (t : Tid) (condId : Int) : Option (Proc × List Event) :=
  match poolIndex p.nextCondvarId condId with
  | none => some (p, [.returned t (-1)])
  | some c => complete t 0 (.ok (condSignal p c, []))

def sysCondvarWait (p : Proc) (t : Tid) (condId mutexId : Int) : Option (Proc × List Event) :=
  match poolIndex p.nextCondvarId condId, poolIndex p.nextMutexId mutexId with
  | some c, some m => complete t 0 (condWait p t c m)
  | _, _ => some (p, [.returned t (-1)])

/-- The loop of `allocthread` stops at the first unused slot. -/
def freeSlot (p : Proc) : Option Tid := (List.finRange nthread).find? fun tid => p.threads tid = .unused

/-- `allocthread` takes a free slot and resets its context. -/
def sysThreadCreate (p : Proc) (t : Tid) : Option (Proc × List Event) :=
  match freeSlot p with
  | none => some (p, [.returned t (-1)])
  | some tid =>
      some ({ (p.setThread tid .runnable).setCont tid .user with
        exitCode := Function.update p.exitCode tid 0 }, [.started tid, .returned t tid.val])

/-- Only an exited thread other than the caller is collected. -/
def sysWaittid (p : Proc) (t : Tid) (tid : Int) : Option (Proc × List Event) :=
  if inside : 0 ≤ tid ∧ tid < nthread then
    let target : Tid := ⟨tid.toNat, index_lt inside⟩
    if p.threads target = .unused ∨ target = t then some (p, [.returned t (-1)])
    else if p.threads target ≠ .exited then some (p, [.returned t (-2)])
    else some (p.setThread target .unused, [.returned t (p.exitCode target)])
  else some (p, [.returned t (-1)])

/-- The exit of the main thread frees the process and marks all its threads unused. -/
def exit (p : Proc) (t : Tid) (code : Int) : Proc × List Event :=
  let p := { p.setThread t .exited with exitCode := Function.update p.exitCode t code, current := none }
  if t.val = 0 then ({ p with threads := fun _ => .unused }, (List.finRange nthread).map .exited)
  else (p, [.exited t])

/-- The call of the thread that runs. -/
def sysCall (p : Proc) (t : Tid) : Action → Option (Proc × List Event)
  | .schedule _ => none
  | .yield => some (p.yield t .user, [])
  | .mutexCreate blocking => completeCreate t (mutexCreate p blocking)
  | .mutexLock mutexId => sysMutexLock p t mutexId
  | .mutexUnlock mutexId => sysMutexUnlock p t mutexId
  | .semaphoreCreate resCount => completeCreate t (semaphoreCreate p resCount)
  | .semaphoreUp semaphoreId => sysSemaphoreUp p t semaphoreId
  | .semaphoreDown semaphoreId => sysSemaphoreDown p t semaphoreId
  | .condvarCreate => completeCreate t (condvarCreate p)
  | .condvarSignal condId => sysCondvarSignal p t condId
  | .condvarWait condId mutexId => sysCondvarWait p t condId mutexId
  | .enableDeadlockDetect isEnable =>
      some ({ p with deadlockDetectEnable := decide (isEnable ≠ 0) }, [.returned t 0])
  | .threadCreate => sysThreadCreate p t
  | .waittid tid => sysWaittid p t tid
  | .exit code => some (exit p t code)

/-- A thread that runs again continues behind the switch point that it left. -/
def resume (p : Proc) (t : Tid) : Option (Proc × List Event) :=
  match p.conts t with
  | .user => some (p, [])
  | .spinning m =>
      if (p.mutexPool m).locked then some (p.yield t (.spinning m), [])
      else complete t 0 (.ok (mutexLockTail p t m))
  | .inLock m => complete t 0 (.ok (mutexLockTail p t m))
  | .inDown s => complete t 0 (.ok (semaphoreDownTail p t s))
  | .inWait _ m => complete t 0 (condWaitTail p t m)

/-- The scheduler may choose any RUNNABLE thread whenever no thread of the process runs. -/
def step (p : Proc) (action : Action) : Option (Proc × List Event) :=
  match p.current, action with
  | none, .schedule t =>
      if p.threads t = .runnable then resume { p.setThread t .running with current := some t } t else none
  | none, _ => none
  | some t, action => sysCall p t action

/-- `allocproc` clears the counters and matrices; the pools keep what the slot held before. -/
structure Initial (p : Proc) : Prop where
  idle : p.current = none
  main : p.threads 0 = .runnable
  others : ∀ t, t ≠ 0 → p.threads t = .unused
  conts : p.conts 0 = .user
  mutexes : p.nextMutexId = 0
  semaphores : p.nextSemaphoreId = 0
  condvars : p.nextCondvarId = 0
  undetected : p.deadlockDetectEnable = false
  mutexAllocation : p.mutexAllocation = fun _ _ => 0
  mutexRequest : p.mutexRequest = fun _ _ => 0
  semAllocation : p.semAllocation = fun _ _ => 0
  semRequest : p.semRequest = fun _ _ => 0

/-- The run starts when `allocthread` has made the main thread. -/
def freshProc : Proc where
  current := none
  threads t := if t = 0 then .runnable else .unused
  conts _ := .user
  exitCode _ := 0
  nextMutexId := 0
  nextSemaphoreId := 0
  nextCondvarId := 0
  mutexPool _ := { blocking := false, locked := false, waitQueue := initQueue waitQueueMaxLength fun _ => 0 }
  semaphorePool _ := { count := 0, waitQueue := initQueue waitQueueMaxLength fun _ => 0 }
  condvarPool _ := { waitQueue := initQueue waitQueueMaxLength fun _ => 0 }
  deadlockDetectEnable := false
  mutexAllocation _ _ := 0
  mutexRequest _ _ := 0
  semAllocation _ _ := 0
  semRequest _ _ := 0

theorem freshProc_initial : Initial freshProc where
  idle := rfl
  main := rfl
  others _ other := if_neg other
  conts := rfl
  mutexes := rfl
  semaphores := rfl
  condvars := rfl
  undetected := rfl
  mutexAllocation := rfl
  mutexRequest := rfl
  semAllocation := rfl
  semRequest := rfl

end BtbuOs.Sync
