import BtbuOs.Sync.Scan

namespace BtbuOs.Sync

/-- The loop has enough rounds to end with one that finds no thread. -/
theorem detectFinal_found (p : Proc) : (detectFinal p).found = false := by
  rw [detectFinal_eq]
  exact (scanLoop_ends (unfinished_init p)).1

/-- Each thread of the set requests a mutex of the set, and no thread outside the set releases one. -/
structure Trapped (p : Proc) (threads : Tid → Prop) (mutexes : LockId → Prop) : Prop where
  live : ∀ t, threads t → p.threads t ≠ .unused ∧ p.threads t ≠ .exited
  blocked : ∀ t, threads t → ∃ m, mutexes m ∧ 0 < p.mutexRequest t m
  locked : ∀ m, mutexes m → (p.mutexPool m).locked = true
  closed : ∀ m u, mutexes m → ¬threads u → p.mutexAllocation u m ≤ 0

/-- The trapped threads are unfinished and the work of their mutexes is used up. -/
structure Stuck (threads : Tid → Prop) (mutexes : LockId → Prop) (d : Detect) : Prop where
  unfinished : ∀ t, threads t → d.finish t = false
  spent : ∀ m, mutexes m → d.workMutex m ≤ 0

variable {p : Proc} {threads : Tid → Prop} {mutexes : LockId → Prop}

theorem Trapped.init (trapped : Trapped p threads mutexes) : Stuck threads mutexes (detectInit p) := by
  constructor
  · intro t member
    obtain ⟨used, running⟩ := trapped.live t member
    simp [detectInit, used, running]
  · intro m member
    simp [detectInit, trapped.locked m member]

/-- A visit of the inner loop frees no trapped thread. -/
theorem Trapped.visit (trapped : Trapped p threads mutexes) {d : Detect} (stuck : Stuck threads mutexes d)
    (t : Tid) : Stuck threads mutexes (detectThread p d t) := by
  unfold detectThread
  split
  · rename_i chosen
    have outside : ¬threads t := by
      intro member
      obtain ⟨m, inside, requested⟩ := trapped.blocked t member
      have covered := chosen.2.1 m
      have spent := stuck.spent m inside
      omega
    constructor
    · intro s member
      have other : s ≠ t := by
        rintro rfl
        exact outside member
      simpa [other] using stuck.unfinished s member
    · intro m member
      have spent := stuck.spent m member
      have nothing := trapped.closed m t member outside
      show d.workMutex m + p.mutexAllocation t m ≤ 0
      omega
  · exact stuck

/-- The detection finds every trapped thread. -/
theorem Trapped.detected (trapped : Trapped p threads mutexes) {t : Tid} (member : threads t) :
    deadlockDetect p = true := by
  have stuck : Stuck threads mutexes (detectFinal p) := by
    rw [detectFinal_eq]
    apply scanLoop_invariant (Stuck threads mutexes)
    · exact fun d stuck => ⟨stuck.unfinished, stuck.spent⟩
    · exact fun d t stuck => trapped.visit stuck t
    · exact trapped.init
  simp only [deadlockDetect, List.any_eq_true]
  exact ⟨t, List.mem_finRange t, by simp [stuck.unfinished t member]⟩

end BtbuOs.Sync
