import BtbuOs.Sync.Detect
import Mathlib.Data.Fintype.Card

namespace BtbuOs.Sync

/-- The threads that the detection has not finished. -/
def Detect.unfinished (d : Detect) : Finset Tid := Finset.univ.filter fun t => d.finish t = false

/-- A round of the detection that scans the threads in the given order. -/
def scanRound (p : Proc) (order : List Tid) (d : Detect) : Detect := order.foldl (detectThread p) { d with found := false }

/-- The loop of the detection with an order for each round. -/
def scanLoop (p : Proc) (orders : Nat → List Tid) : Nat → Detect → Detect
  | 0, d => d
  | rounds + 1, d =>
      if (scanRound p (orders rounds) d).found then scanLoop p orders rounds (scanRound p (orders rounds) d)
      else scanRound p (orders rounds) d

def scanFinal (p : Proc) (orders : Nat → List Tid) : Detect := scanLoop p orders (nthread + 1) (detectInit p)

/-- The answer of the detection when it scans in other orders. -/
def scanDetect (p : Proc) (orders : Nat → List Tid) : Bool :=
  (List.finRange nthread).any fun t => !(scanFinal p orders).finish t

variable {p : Proc} {orders : Nat → List Tid}

/-- The code scans by index. -/
theorem detectLoop_eq (p : Proc) (rounds : Nat) (d : Detect) :
    detectLoop p rounds d = scanLoop p (fun _ => List.finRange nthread) rounds d := by
  induction rounds generalizing d with
  | zero => rfl
  | succ rounds ih =>
      rw [detectLoop, scanLoop, ih]
      rfl

theorem detectFinal_eq (p : Proc) : detectFinal p = scanFinal p fun _ => List.finRange nthread := detectLoop_eq p _ _

theorem deadlockDetect_eq (p : Proc) : deadlockDetect p = scanDetect p fun _ => List.finRange nthread := by
  rw [deadlockDetect, detectFinal_eq]
  rfl

/-- A visit that reports a thread has finished it. -/
theorem detectThread_unfinished (p : Proc) (d : Detect) (t : Tid) :
    (detectThread p d t).unfinished.card ≤ d.unfinished.card ∧
      ((detectThread p d t).found = true → d.found = true ∨
        (detectThread p d t).unfinished.card < d.unfinished.card) := by
  unfold detectThread
  split
  · rename_i chosen
    have fewer : Detect.unfinished
        { workMutex := fun id => d.workMutex id + p.mutexAllocation t id
          workSem := fun id => d.workSem id + p.semAllocation t id
          finish := Function.update d.finish t true
          found := true } = d.unfinished.erase t := by
      ext s
      by_cases same : s = t
      · simp [Detect.unfinished, same]
      · simp [Detect.unfinished, same]
    have member : t ∈ d.unfinished := by simp [Detect.unfinished, chosen.1]
    have less := Finset.card_erase_lt_of_mem member
    rw [fewer]
    exact ⟨Nat.le_of_lt less, fun _ => Or.inr less⟩
  · exact ⟨Nat.le_refl _, fun found => Or.inl found⟩

/-- A round that reports a thread leaves fewer threads unfinished. -/
theorem scanRound_unfinished (p : Proc) (order : List Tid) (d : Detect) :
    (scanRound p order d).found = true → (scanRound p order d).unfinished.card < d.unfinished.card := by
  have fold (d : Detect) :
      (order.foldl (detectThread p) d).unfinished.card ≤ d.unfinished.card ∧
        ((order.foldl (detectThread p) d).found = true → d.found = true ∨
          (order.foldl (detectThread p) d).unfinished.card < d.unfinished.card) := by
    induction order generalizing d with
    | nil => exact ⟨Nat.le_refl _, fun found => Or.inl found⟩
    | cons t rest ih =>
        obtain ⟨later, reported⟩ := ih (detectThread p d t)
        obtain ⟨visit, first⟩ := detectThread_unfinished p d t
        refine ⟨Nat.le_trans later visit, fun found => ?_⟩
        rcases reported found with earlier | less
        · rcases first earlier with before | less
          · exact Or.inl before
          · exact Or.inr (Nat.lt_of_le_of_lt later less)
        · exact Or.inr (Nat.lt_of_lt_of_le less visit)
  intro found
  rcases (fold { d with found := false }).2 found with before | less
  · contradiction
  · exact less

/-- What every visit keeps holds at the end of the loop. -/
theorem scanLoop_invariant (property : Detect → Prop) (reset : ∀ d, property d → property { d with found := false })
    (visit : ∀ d t, property d → property (detectThread p d t)) {rounds : Nat} {d : Detect} (base : property d) :
    property (scanLoop p orders rounds d) := by
  have fold (visited : List Tid) (d : Detect) (holds : property d) : property (visited.foldl (detectThread p) d) := by
    induction visited generalizing d with
    | nil => exact holds
    | cons t rest ih => exact ih _ (visit d t holds)
  have round (order : List Tid) (d : Detect) (holds : property d) : property (scanRound p order d) :=
    fold _ _ (reset d holds)
  induction rounds generalizing d with
  | zero => exact base
  | succ rounds ih =>
      unfold scanLoop
      split
      · exact ih (round _ d base)
      · exact round _ d base

/-- No visit would finish a thread. -/
def Exhausted (p : Proc) (d : Detect) : Prop := ∀ t, d.finish t = false → ¬possible p d t

/-- A round that finds no thread has visited each of them in vain. -/
theorem exhausted_of_round {order : List Tid} {d : Detect} (full : ∀ t, t ∈ order) (last : (scanRound p order d).found = false) :
    Exhausted p (scanRound p order d) := by
  have fold (visited : List Tid) (d : Detect) (last : (visited.foldl (detectThread p) d).found = false) :
      visited.foldl (detectThread p) d = d ∧ ∀ t ∈ visited, ¬(d.finish t = false ∧ possible p d t) := by
    induction visited generalizing d with
    | nil => simp
    | cons t rest ih =>
        obtain ⟨same, later⟩ := ih (detectThread p d t) last
        have idle : ¬(d.finish t = false ∧ possible p d t) := by
          intro chosen
          rw [List.foldl_cons, same] at last
          simp [detectThread, chosen] at last
        have still : detectThread p d t = d := if_neg idle
        rw [still] at same later
        exact ⟨by rw [List.foldl_cons, still, same], List.forall_mem_cons.mpr ⟨idle, later⟩⟩
  obtain ⟨same, vain⟩ := fold _ _ last
  intro t unfinished able
  rw [scanRound, same] at unfinished able
  exact vain t (full t) ⟨unfinished, able⟩

/-- With more rounds than threads the loop ends by itself: its last round finds no thread. -/
theorem scanLoop_ends {rounds : Nat} {d : Detect} (enough : d.unfinished.card < rounds) :
    (scanLoop p orders rounds d).found = false ∧
      ((∀ k t, t ∈ orders k) → Exhausted p (scanLoop p orders rounds d)) := by
  induction rounds generalizing d with
  | zero => omega
  | succ rounds ih =>
      unfold scanLoop
      split
      · rename_i found
        have less := scanRound_unfinished p (orders rounds) d found
        exact ih (by omega)
      · rename_i last
        have stopped := (Bool.not_eq_true _).mp last
        exact ⟨stopped, fun full => exhausted_of_round (full rounds) stopped⟩

theorem unfinished_init (p : Proc) : (detectInit p).unfinished.card < nthread + 1 :=
  Nat.lt_succ_of_le ((Finset.card_le_univ _).trans_eq (Fintype.card_fin nthread))

/-- The rounds of the code are enough: more of them would not change the result. -/
theorem detectLoop_stable {rounds more : Nat} {d : Detect} (enough : d.unfinished.card < rounds) :
    detectLoop p (rounds + more) d = detectLoop p rounds d := by
  rw [detectLoop_eq, detectLoop_eq]
  induction rounds generalizing d with
  | zero => omega
  | succ rounds ih =>
      rw [Nat.add_right_comm, scanLoop, scanLoop]
      split
      · rename_i found
        have less := scanRound_unfinished p _ d found
        exact ih (by omega)
      · rfl

end BtbuOs.Sync
