import BtbuOs.Lib.Banker
import BtbuOs.Sync.Bookkeeping

namespace BtbuOs.Sync

/-- What the detection knows: the threads, both matrices, and the free mutexes and units. -/
def books (p : Proc) : Banker Tid (LockId ⊕ LockId) where
  live := Finset.univ.filter fun t => p.threads t ≠ .unused ∧ p.threads t ≠ .exited
  request t := Sum.elim (p.mutexRequest t) (p.semRequest t)
  allocation t := Sum.elim (p.mutexAllocation t) (p.semAllocation t)
  available := Sum.elim (fun id => if (p.mutexPool id).locked then 0 else 1)
    (fun id => if (p.semaphorePool id).count > 0 then (p.semaphorePool id).count else 0)

variable {p : Proc} {d : Detect}

theorem mem_books_live {t : Tid} : t ∈ (books p).live ↔ Live p t := by
  simp [books, Live]

/-- The work arrays are what the unfinished threads leave. -/
structure Tracks (p : Proc) (d : Detect) : Prop where
  live : d.unfinished ⊆ (books p).live
  mutex : ∀ id, d.workMutex id = (books p).supply d.unfinished (.inl id)
  sem : ∀ id, d.workSem id = (books p).supply d.unfinished (.inr id)

theorem Tracks.possible_iff (tracks : Tracks p d) (t : Tid) : possible p d t ↔ (books p).Covers d.unfinished t := by
  constructor
  · intro able r
    cases r with
    | inl id => exact (able.1 id).trans_eq (tracks.mutex id)
    | inr id => exact (able.2 id).trans_eq (tracks.sem id)
  · intro covers
    constructor
    · intro id
      rw [tracks.mutex id]
      exact covers (.inl id)
    · intro id
      rw [tracks.sem id]
      exact covers (.inr id)

theorem mem_unfinished {t : Tid} : t ∈ d.unfinished ↔ d.finish t = false := by
  simp [Detect.unfinished]

theorem Tracks.init (p : Proc) : Tracks p (detectInit p) := by
  have whole : (detectInit p).unfinished = (books p).live := by
    ext t
    simp [mem_unfinished, detectInit, books]
  constructor
  · rw [whole]
  · intro id
    rw [whole, Banker.supply_live]
    rfl
  · intro id
    rw [whole, Banker.supply_live]
    rfl

/-- A visit finishes its thread exactly when the supply covers it. -/
theorem Tracks.visit (tracks : Tracks p d) (t : Tid) : Tracks p (detectThread p d t) := by
  unfold detectThread
  split
  · rename_i chosen
    have member : t ∈ d.unfinished := mem_unfinished.mpr chosen.1
    have erased : Detect.unfinished
        { workMutex := fun id => d.workMutex id + p.mutexAllocation t id
          workSem := fun id => d.workSem id + p.semAllocation t id
          finish := Function.update d.finish t true
          found := true } = d.unfinished.erase t := by
      ext s
      by_cases same : s = t
      · simp [mem_unfinished, same]
      · simp [mem_unfinished, same]
    constructor
    · rw [erased]
      exact (Finset.erase_subset _ _).trans tracks.live
    · intro id
      rw [erased, Banker.supply_erase tracks.live member, ← tracks.mutex]
      rfl
    · intro id
      rw [erased, Banker.supply_erase tracks.live member, ← tracks.sem]
      rfl
  · exact tracks

/-- No entry of the allocation matrices is negative. -/
structure Solvent (p : Proc) : Prop where
  mutex : ∀ t id, 0 ≤ p.mutexAllocation t id
  sem : ∀ t id, 0 ≤ p.semAllocation t id

theorem Solvent.books (solvent : Solvent p) (t : Tid) (r : LockId ⊕ LockId) : 0 ≤ (books p).allocation t r := by
  cases r with
  | inl id => exact solvent.mutex t id
  | inr id => exact solvent.sem t id

/-- In every order of scanning, the detection reports exactly the processes in which a group of threads starves. -/
theorem scanDetect_iff {orders : Nat → List Tid} (solvent : Solvent p) (full : ∀ k t, t ∈ orders k) :
    scanDetect p orders = true ↔ ∃ group, (books p).Starving group := by
  have tracks : Tracks p (scanFinal p orders) := by
    apply scanLoop_invariant (Tracks p)
    · exact fun d tracks => ⟨tracks.live, tracks.mutex, tracks.sem⟩
    · exact fun d t tracks => tracks.visit t
    · exact Tracks.init p
  have exhausted : Exhausted p (scanFinal p orders) := (scanLoop_ends (unfinished_init p)).2 full
  constructor
  · intro reported
    obtain ⟨t, -, unfinished⟩ := List.any_eq_true.mp reported
    refine ⟨(scanFinal p orders).unfinished, ⟨t, mem_unfinished.mpr (by simpa using unfinished)⟩, tracks.live, ?_⟩
    intro u member
    have vain := exhausted u (mem_unfinished.mp member)
    rw [tracks.possible_iff, Banker.Covers] at vain
    push Not at vain
    exact vain
  · rintro ⟨group, starving⟩
    have kept : Tracks p (scanFinal p orders) ∧ group ⊆ (scanFinal p orders).unfinished := by
      apply scanLoop_invariant fun d => Tracks p d ∧ group ⊆ d.unfinished
      · exact fun d kept => ⟨⟨kept.1.live, kept.1.mutex, kept.1.sem⟩, kept.2⟩
      · intro d t kept
        refine ⟨kept.1.visit t, fun u member => ?_⟩
        have before := mem_unfinished.mp (kept.2 member)
        rw [mem_unfinished]
        unfold detectThread
        split
        · rename_i chosen
          have other : u ≠ t := by
            rintro rfl
            exact starving.not_mem solvent.books kept.2 ((kept.1.possible_iff u).mp chosen.2) member
          show Function.update d.finish t true u = false
          rw [Function.update_of_ne other]
          exact before
        · exact before
      · refine ⟨Tracks.init p, fun u member => ?_⟩
        have live := starving.live member
        simpa [mem_unfinished, detectInit, books] using live
    obtain ⟨t, member⟩ := starving.nonempty
    exact List.any_eq_true.mpr ⟨t, List.mem_finRange t, by simp [mem_unfinished.mp (kept.2 member)]⟩

/-- The detection reports exactly the processes in which a group of threads starves. -/
theorem deadlockDetect_iff (solvent : Solvent p) : deadlockDetect p = true ↔ ∃ group, (books p).Starving group := by
  rw [deadlockDetect_eq]
  exact scanDetect_iff solvent fun _ => List.mem_finRange

end BtbuOs.Sync
