import BtbuOs.Sync.Process

namespace BtbuOs.Sync

/-- The local arrays of `deadlock_detect`. -/
structure Detect where
  workMutex : LockId → Int
  workSem : LockId → Int
  finish : Tid → Bool
  found : Bool

/-- Work starts as the available amounts, and unused or exited threads count as finished. -/
def detectInit (p : Proc) : Detect where
  workMutex id := if (p.mutexPool id).locked then 0 else 1
  workSem id := if (p.semaphorePool id).count > 0 then (p.semaphorePool id).count else 0
  finish t := p.threads t = .unused || p.threads t = .exited
  found := false

/-- Both request rows of the thread are covered by the work arrays. -/
def possible (p : Proc) (d : Detect) (t : Tid) : Prop :=
  (∀ id, p.mutexRequest t id ≤ d.workMutex id) ∧ ∀ id, p.semRequest t id ≤ d.workSem id

instance (p : Proc) (d : Detect) (t : Tid) : Decidable (possible p d t) :=
  inferInstanceAs (Decidable (_ ∧ _))

/-- A thread that can finish releases what it holds. -/
def detectThread (p : Proc) (d : Detect) (t : Tid) : Detect :=
  if d.finish t = false ∧ possible p d t then
    { workMutex := fun id => d.workMutex id + p.mutexAllocation t id
      workSem := fun id => d.workSem id + p.semAllocation t id
      finish := Function.update d.finish t true
      found := true }
  else d

/-- One round of the outer loop visits the threads in order. -/
def detectRound (p : Proc) (d : Detect) : Detect :=
  (List.finRange nthread).foldl (detectThread p) { d with found := false }

/-- The loop ends at the first round that finds no thread. -/
def detectLoop (p : Proc) : Nat → Detect → Detect
  | 0, d => d
  | rounds + 1, d => if (detectRound p d).found then detectLoop p rounds (detectRound p d) else detectRound p d

/-- Every round but the last finishes a thread, so the loop makes at most this many rounds. -/
def detectFinal (p : Proc) : Detect := detectLoop p (nthread + 1) (detectInit p)

/-- The result is 1 when some thread cannot finish. -/
def deadlockDetect (p : Proc) : Bool := (List.finRange nthread).any fun t => !(detectFinal p).finish t

end BtbuOs.Sync
