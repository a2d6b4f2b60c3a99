import BtbuOs.Vm.Calls

namespace BtbuOs.Vm

open Machine Partition
open Sync (nthread Tid ThreadState)
open Sched (nproc Slot ProcState)

variable {l : Layout} {k mid after : Kernel} {m : Memory} {s np : Slot} {t : Tid} {root page : Page} {events : List Event}

/-- One round of the loop of `freeproc`. -/
def freeprocRound (l : Layout) (s : Slot) (k : Kernel) (t : Tid) : Except String Kernel := do
  let k ← if alive ((k.pool s).threads t) then freethread l k s t else .ok k
  return k.setThread s t .unused

/-- The loop of `freeproc` has released some threads of a process. -/
structure Released (l : Layout) (k after : Kernel) (s : Slot) (done : List Tid) : Prop where
  kept : Kept l after
  fields : ∃ threads, after.pool s = { k.pool s with threads }
  unused : ∀ t, t ∈ done → (after.pool s).threads t = .unused
  others : ∀ r, r ≠ s → after.pool r = k.pool r

theorem Released.round {done : List Tid} (released : Released l k mid s done) (ran : freeprocRound l s mid t = .ok after) :
    Released l k after s (done ++ [t]) := by
  have stepped : Kept l after ∧ after.pool = (mid.setThread s t .unused).pool := by
    unfold freeprocRound at ran
    split at ran
    · rename_i lives
      obtain ⟨freed, freeing, result⟩ := bind_ok.mp ran
      simp only [pure, Except.pure, Except.ok.injEq] at result
      rw [← result]
      refine ⟨released.kept.freethread lives rfl freeing, ?_⟩
      obtain ⟨_, _, _, _, _, _, rfl⟩ := freethread_ok freeing
      rfl
    · obtain ⟨same, equal, result⟩ := bind_ok.mp ran
      simp only [Except.ok.injEq] at equal
      simp only [pure, Except.pure, Except.ok.injEq] at result
      rw [← result, ← equal]
      exact ⟨released.kept.setThread _ fun impossible => by simp [alive] at impossible, rfl⟩
  obtain ⟨kept, pool⟩ := stepped
  obtain ⟨threads, fields⟩ := released.fields
  refine ⟨kept, ⟨Function.update threads t .unused, ?_⟩, fun u listed => ?_, fun r other => ?_⟩
  · rw [pool, setThread_self, threaded, fields]
  · rw [pool, setThread_self]
    by_cases own : u = t
    · rw [own, threaded_self]
    · rw [threaded_other _ _ own]
      apply released.unused
      simpa [own] using listed
  · rw [pool, setThread_away _ _ _ other]
    exact released.others r other

/-- What `freeproc` leaves behind. -/
structure Cleared (l : Layout) (k after : Kernel) (s : Slot) : Prop where
  kept : Kept l after
  pagetable : (after.pool s).pagetable = none
  unused : ∀ t, (after.pool s).threads t = .unused
  others : ∀ r, r ≠ s → after.pool r = k.pool r

theorem freeproc_cleared (kept : Kept l k) (done : freeproc l k s = .ok after) : Cleared l k after s := by
  obtain ⟨mid, loop, rest⟩ := bind_ok.mp done
  have start : Released l k k s [] := ⟨kept, ⟨_, rfl⟩, fun t listed => by simp at listed, fun _ _ => rfl⟩
  have rounds : (List.finRange nthread).foldlM (freeprocRound l s) k = .ok mid := loop
  have released := foldlM_ok (fun done state => Released l k state s done)
    (fun done t state next before ran => before.round ran) (List.finRange nthread) start rounds
  have unused (t : Tid) : (mid.pool s).threads t = .unused := by
    apply released.unused
    rw [List.nil_append]
    exact List.mem_finRange t
  let p : Process := { mid.pool s with state := .unused, pagetable := none, maxPage := 0, ustackBase := 0 }
  have finish (m : Memory) (sound : Sound l m (mid.holding.setRoot s none))
      (others : ∀ r, r ≠ s → StaysOf mid.memory m (mid.pool r).pagetable) :
      Cleared l k { mid.setProcess s p with memory := m } s := by
    have own : ({ mid.setProcess s p with memory := m } : Kernel).pool s = p := setProcess_self mid s p
    refine ⟨?_, congrArg Process.pagetable own, fun t => ?_, fun r other => ?_⟩
    · apply released.kept.replace p sound others
      · intro impossible
        simp [p] at impossible
      · intro root impossible
        simp [p] at impossible
      · intro u lives
        simp [p, unused u, alive] at lives
      · have small : 0 + nthread ≤ 2 ^ 21 := by decide
        exact ⟨Nat.zero_le _, small⟩
    · rw [own]
      exact unused t
    · exact (setProcess_other mid s p other).trans (released.others r other)
  simp only at rest
  split at rest
  · rename_i missing
    obtain ⟨m, same, result⟩ := bind_ok.mp rest
    simp only [Except.ok.injEq] at same
    simp only [pure, Except.pure, Except.ok.injEq] at result
    rw [← result, ← same]
    have vacant : mid.holding.roots s = none := missing
    apply finish mid.memory
    · rw [← vacant, Holding.setRoot_self]
      exact released.kept.sound
    · exact fun _ _ _ _ _ _ => rfl
  · rename_i root rooted
    obtain ⟨m, freeing, result⟩ := bind_ok.mp rest
    simp only [pure, Except.pure, Except.ok.injEq] at result
    rw [← result]
    have held : mid.holding.roots s = some root := rooted
    have nobody : userPage (space mid.memory (mid.holding.roots s) trampolineVpn) = none := by
      rw [held, released.kept.trampoline s root rooted]
      rfl
    obtain ⟨sound, others⟩ := freepagetable_sound released.kept.sound held nobody freeing
    exact finish m sound fun r other vpn inside _ _ => others r other vpn inside

/-- Fields that no page depends on are written. -/
theorem Kept.relabel (kept : Kept l k) (holding : after.holding = k.holding) (memory : after.memory = k.memory)
    (used : ∀ r, (after.pool r).pagetable ≠ none → (after.pool r).state = .used)
    (threads : ∀ r, (after.pool r).threads = (k.pool r).threads)
    (bounds : ∀ r, (after.pool r).maxPage = (k.pool r).maxPage ∧ (after.pool r).ustackBase = (k.pool r).ustackBase) :
    Kept l after := by
  apply kept.remake
  · rw [memory, holding]
    exact kept.sound
  · rw [memory]
    exact fun _ _ _ _ _ => rfl
  · exact fun r => congrFun (congrArg Holding.roots holding) r
  · exact used
  · intro r u lives
    rwa [threads r] at lives
  · intro r
    rw [(bounds r).1, (bounds r).2]
    exact kept.bounds r

theorem wait_kept (kept : Kept l k) (led : Led k) : Kept l (wait k s np).1 ∧ Led (wait k s np).1 := by
  unfold wait
  split
  · rename_i zombie
    have gone : (k.pool np).pagetable = none := by
      by_contra held
      rw [kept.used np held] at zombie
      simp at zombie
    let p : Process := { k.pool np with state := .unused }
    constructor
    · exact kept.rewrite p kept.sound (fun _ _ _ _ _ => rfl) rfl (fun held => absurd gone held) (fun u lives => Or.inl lives)
        (kept.bounds np)
    · refine led.only (s := np) (ledBy_unused fun t => ?_) fun r => setProcess_other k np p
      rw [setProcess_self]
      exact (led np).2 (by simp [zombie.1]) t
  · exact ⟨kept, led⟩

theorem exit_kept (kept : Kept l k) (led : Led k) (used : (k.pool s).state = .used)
    (lives : alive ((k.pool s).threads t) = true) (done : exit l k s t = .ok (after, events)) : Kept l after ∧ Led after := by
  obtain ⟨freed, freeing, rest⟩ := bind_ok.mp done
  obtain ⟨root, first, m, rooted, frame, stack, same⟩ := freethread_ok freeing
  rw [setThread_self] at rooted
  have keptFreed : Kept l freed := by
    rw [same]
    exact kept.unthread rooted lives rfl frame stack
  have pool : freed.pool = (k.setThread s t .exited).pool := by rw [same]
  split at rest
  · obtain ⟨cleared, clearing, result⟩ := bind_ok.mp rest
    simp only [pure, Except.pure, Except.ok.injEq, Prod.mk.injEq] at result
    rw [← result.1]
    have empty := freeproc_cleared keptFreed clearing
    have settled : Kept l (if (cleared.pool s).parent.isSome then
        cleared.setProcess s { cleared.pool s with state := .zombie } else cleared) ∧
        Led (if (cleared.pool s).parent.isSome then
          cleared.setProcess s { cleared.pool s with state := .zombie } else cleared) := by
      have away (r : Slot) (other : r ≠ s) : cleared.pool r = k.pool r := by
        rw [empty.others r other, pool, setThread_away _ _ _ other]
      split
      · let p : Process := { cleared.pool s with state := .zombie }
        constructor
        · exact empty.kept.rewrite p empty.kept.sound (fun _ _ _ _ _ => rfl) rfl (fun held => absurd empty.pagetable held)
            (fun u living => Or.inl living) (empty.kept.bounds s)
        · refine led.only (s := s) (ledBy_unused fun u => ?_) fun r other => ?_
          · rw [setProcess_self]
            exact empty.unused u
          · rw [setProcess_other _ _ _ other, away r other]
      · exact ⟨empty.kept, led.only (ledBy_unused empty.unused) away⟩
    exact ⟨settled.1.relabel rfl rfl settled.1.used (fun _ => rfl) (fun _ => ⟨rfl, rfl⟩), settled.2⟩
  · rename_i other
    simp only [pure, Except.pure, Except.ok.injEq, Prod.mk.injEq] at rest
    rw [← rest.1]
    refine ⟨keptFreed, led.only (s := s) (ledBy_main ?_ ?_) fun r different => ?_⟩
    · rw [pool, setThread_self, threaded_other _ _ (Ne.symm other)]
      exact (led s).1 t lives
    · rw [pool, setThread_self]
      exact used
    · rw [pool, setThread_away _ _ _ different]

/-- A kernel object gets a page or loses it. -/
theorem Kept.object {n : Nat} {held : Option Page} (kept : Kept l k) (alike : Alike k.memory m k.holding.roots)
    (owned : Owned (Managed l) m.free (Function.update (occupant k.memory k.holding) (.object n) held)) :
    Kept l { k with memory := m, objects := Function.update k.objects n held } := by
  let next : Holding := { k.holding with objects := Function.update k.objects n held }
  have owner : occupant m next = Function.update (occupant k.memory k.holding) (.object n) held := by
    have same := occupant_same alike
    funext role
    rw [← same]
    cases role with
    | table s path => rfl
    | leaf s i up => rfl
    | object other =>
        by_cases own : other = n
        · subst own
          rw [Function.update_self]
          exact Function.update_self ..
        · rw [Function.update_of_ne (by simpa using own)]
          exact Function.update_of_ne own ..
    | hand => rfl
  have sound : Sound l m next := by
    have roots : next.roots = k.holding.roots := rfl
    apply kept.sound.remake alike roots
    rw [owner]
    exact owned
  let final : Kernel := { k with memory := m, objects := Function.update k.objects n held }
  have result : Kept l final :=
    kept.remake sound alike.stays (fun _ => rfl) kept.used (fun _ _ lives => lives) kept.bounds
  exact result

theorem takeObject_kept {n : Nat} (kept : Kept l k) (led : Led k) (vacant : k.objects n = none) :
    Kept l (takeObject k n).1 ∧ Led (takeObject k n).1 := by
  unfold takeObject
  split
  · rename_i m alloc
    obtain ⟨sound, alike⟩ := alloc_failed kept.sound alloc
    exact ⟨kept.remember sound alike.stays, led⟩
  · rename_i page m alloc
    refine ⟨kept.object (kept.sound.forest.kalloc alloc).1 ?_, led⟩
    have owned := kept.sound.owned
    rw [(kalloc_some alloc).1] at owned
    exact owned.take vacant

theorem dropObject_kept {n : Nat} (kept : Kept l k) (led : Led k) (held : k.objects n = some page)
    (done : dropObject l k n page = .ok (after, events)) : Kept l after ∧ Led after := by
  obtain ⟨m, freeing, result⟩ := bind_ok.mp done
  simp only [pure, Except.pure, Except.ok.injEq, Prod.mk.injEq] at result
  rw [← result.1]
  have mine : occupant k.memory k.holding (.object n) = some page := held
  refine ⟨kept.object (alike_kfree freeing (kept.sound.no_table mine fun r path => by simp)) ?_, led⟩
  rw [(kfree_ok freeing).2.1]
  exact kept.sound.owned.give mine

end BtbuOs.Vm
