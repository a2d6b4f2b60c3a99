import BtbuOs.Sync.Starve
import BtbuOs.Sync.Stuck

namespace BtbuOs.Sync

variable {p : Proc} {order : List Tid}

/-- The threads in use are ordered such that the requests of each are covered by the free amounts and the allocations before it. -/
structure SafeOrder (p : Proc) (order : List Tid) : Prop where
  nodup : order.Nodup
  complete : ∀ t, t ∈ order ↔ p.threads t ≠ .unused ∧ p.threads t ≠ .exited
  mutex : ∀ before t after, order = before ++ t :: after → ∀ id,
    p.mutexRequest t id ≤ (if (p.mutexPool id).locked then 0 else 1) + (before.map fun u => p.mutexAllocation u id).sum
  sem : ∀ before t after, order = before ++ t :: after → ∀ id,
    p.semRequest t id ≤ max (p.semaphorePool id).count 0 + (before.map fun u => p.semAllocation u id).sum

theorem positive_count (count : Int) : (if count > 0 then count else 0) = max count 0 := by
  split <;> omega

theorem safeOrder_iff : SafeOrder p order ↔ (books p).Safe order := by
  have live (t : Tid) : p.threads t ≠ .unused ∧ p.threads t ≠ .exited ↔ t ∈ (books p).live := by simp [books]
  constructor
  · intro safe
    refine ⟨safe.nodup, fun t => (safe.complete t).trans (live t), fun before t after whole r => ?_⟩
    cases r with
    | inl id => exact safe.mutex before t after whole id
    | inr id =>
        have served := safe.sem before t after whole id
        rw [← positive_count] at served
        exact served
  · intro safe
    constructor
    · exact safe.nodup
    · exact fun t => (safe.complete t).trans (live t).symm
    · exact fun before t after whole id => safe.served before t after whole (.inl id)
    · intro before t after whole id
      rw [← positive_count]
      exact safe.served before t after whole (.inr id)

/-- The detection ends, reports no deadlock exactly when a safe order exists, and does not depend on its order of scanning. -/
theorem deadlock_detect_safe (solvent : Solvent p) :
    (deadlockDetect p = false ↔ ∃ order, SafeOrder p order) ∧
      (∀ more, detectLoop p (nthread + 1 + more) (detectInit p) = detectFinal p) ∧
      ∀ orders : Nat → List Tid, (∀ k t, t ∈ orders k) → scanDetect p orders = deadlockDetect p := by
  refine ⟨?_, ?_, ?_⟩
  · have safe : (∃ order, SafeOrder p order) ↔ ∃ order, (books p).Safe order := exists_congr fun _ => safeOrder_iff
    rw [safe, Banker.exists_safe_iff solvent.books, ← not_exists, ← deadlockDetect_iff solvent, Bool.not_eq_true]
  · exact fun more => detectLoop_stable (unfinished_init p)
  · intro orders full
    rw [Bool.eq_iff_iff, scanDetect_iff solvent full, deadlockDetect_iff solvent]

/-- Two threads that hold one unit each and request the other's. -/
def crossedProc : Proc :=
  { freshProc with
    threads := fun t => if t.val < 2 then .sleeping else .unused
    semAllocation := fun t id => if t.val < 2 ∧ id.val = t.val then 1 else 0
    semRequest := fun t id => if t.val < 2 ∧ id.val + t.val = 1 then 1 else 0 }

/-- The crossed requests have no safe order, and a scan from the last thread on reports them, too. -/
theorem deadlock_detect_safe_run : (¬∃ order, SafeOrder crossedProc order) ∧
    scanDetect crossedProc (fun _ => (List.finRange nthread).reverse) = true := by
  have solvent : Solvent crossedProc := by
    constructor
    · exact fun _ _ => Int.le_refl 0
    · intro t id
      show 0 ≤ if t.val < 2 ∧ id.val = t.val then (1 : Int) else 0
      split <;> decide
  obtain ⟨iff, -, orders⟩ := deadlock_detect_safe solvent
  have reported : deadlockDetect crossedProc = true := by decide +kernel
  constructor
  · intro safe
    rw [iff.mpr safe] at reported
    contradiction
  · rw [orders (fun _ => (List.finRange nthread).reverse) fun _ t => List.mem_reverse.mpr (List.mem_finRange t)]
    exact reported

end BtbuOs.Sync
