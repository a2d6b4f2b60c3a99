import BtbuOs.Vm.Processes

namespace BtbuOs.Vm

open Machine Partition
open Sync (nthread Tid ThreadState)
open Sched (nproc Slot ProcState)

variable {l : Layout} {k after : Kernel} {m : Memory} {s np : Slot} {t : Tid} {root : Page} {events : List Event}

/-- The process after a thread has changed its state. -/
def threaded (p : Process) (t : Tid) (state : ThreadState) : Process :=
  { p with threads := Function.update p.threads t state }

@[simp] theorem threaded_self (p : Process) (t : Tid) (state : ThreadState) : (threaded p t state).threads t = state :=
  Function.update_self ..

theorem threaded_other (p : Process) (state : ThreadState) {t u : Tid} (other : u ≠ t) :
    (threaded p t state).threads u = p.threads u := Function.update_of_ne other ..

theorem setThread_self (k : Kernel) (s : Slot) (t : Tid) (state : ThreadState) :
    (k.setThread s t state).pool s = threaded (k.pool s) t state := setProcess_self k s _

theorem setThread_away (k : Kernel) (t : Tid) (state : ThreadState) {s r : Slot} (other : r ≠ s) :
    (k.setThread s t state).pool r = k.pool r := setProcess_other k s _ other

/-- A thread loses its trap frame and its stack and is dead afterwards. -/
theorem Kept.unthread {first : Memory} {vpn : Nat} {state : ThreadState} (kept : Kept l k)
    (rooted : (k.pool s).pagetable = some root) (lives : alive ((k.pool s).threads t) = true) (dead : alive state = false)
    (frame : unmapRange l root false 1 (trapframeVpn t) k.memory = .ok first)
    (stack : unmapRange l root true 1 vpn first = .ok m) : Kept l { k.setThread s t state with memory := m } := by
  have held : k.holding.roots s = some root := rooted
  have mapping := kept.trapframe s t lives
  have nobody : userPage (space k.memory (k.holding.roots s) (trapframeVpn t)) = none := by
    change userPage (space k.memory (k.pool s).pagetable (trapframeVpn t)) = none
    rw [mapping]
    rfl
  obtain ⟨sound, remapped⟩ := unmapRange_keeps held kept.sound nobody frame
  have changed := unmapRange_frees held 1 sound stack
  have others (r : Slot) (v : Nat) (inside : v < maxVpn) (other : ¬(r = s ∧ v = trapframeVpn t))
      (valid : (space k.memory (k.pool r).pagetable v).valid = true)
      (system : (space k.memory (k.pool r).pagetable v).perm.u = false) :
      space m (k.pool r).pagetable v = space k.memory (k.pool r).pagetable v := by
    have same : space first (k.pool r).pagetable v = space k.memory (k.pool r).pagetable v := remapped r v inside other
    rw [← same] at valid system
    rw [← same]
    exact changed.stays r v inside valid system
  apply kept.replace (threaded (k.pool s) t state)
  · have same : k.holding.setRoot s (k.pool s).pagetable = k.holding := k.holding.setRoot_self s
    change Sound l m (k.holding.setRoot s (k.pool s).pagetable)
    rw [same]
    exact changed.sound
  · exact fun r different v inside => others r v inside fun both => different both.1
  · exact kept.used s
  · intro page here
    have old := kept.trampoline s page here
    have stays := others s trampolineVpn trampoline_inside fun both => trapframe_trampoline t both.2
    change (k.pool s).pagetable = some page at here
    rw [here, old] at stays
    exact stays rfl rfl
  · intro u living
    by_cases own : u = t
    · subst own
      rw [threaded_self, dead] at living
      simp at living
    · rw [threaded_other _ _ own] at living
      refine ⟨kept.rooted s u living, ?_⟩
      have old := kept.trapframe s u living
      have stays := others s (trapframeVpn u) (trapframe_inside u) fun both => own (trapframe_inj both.2)
      rw [old] at stays
      exact stays rfl rfl
  · exact kept.bounds s

theorem freethread_ok (done : freethread l k s t = .ok after) :
    ∃ root first m, (k.pool s).pagetable = some root ∧ unmapRange l root false 1 (trapframeVpn t) k.memory = .ok first ∧
      unmapRange l root true 1 (ustackVpn (k.pool s) t) first = .ok m ∧ after = { k with memory := m } := by
  unfold freethread at done
  split at done
  · simp at done
  · rename_i root rooted
    obtain ⟨first, frame, rest⟩ := bind_ok.mp done
    obtain ⟨m, stack, result⟩ := bind_ok.mp rest
    simp only [pure, Except.pure, Except.ok.injEq] at result
    exact ⟨root, first, m, rooted, frame, stack, result.symm⟩

/-- A thread that is freed after or before its state is set. -/
theorem Kept.freethread {state : ThreadState} (kept : Kept l k) (lives : alive ((k.pool s).threads t) = true)
    (dead : alive state = false) (done : freethread l k s t = .ok after) : Kept l (after.setThread s t state) := by
  obtain ⟨root, first, m, rooted, frame, stack, rfl⟩ := freethread_ok done
  exact kept.unthread rooted lives dead frame stack

/-- The page of the stack of the main thread is there when the arguments have been copied. -/
theorem pushArgv_backed {fits : Bool} (done : pushArgv k s fits = .ok ()) :
    ∃ root, (k.pool s).pagetable = some root ∧ (space k.memory (some root) (ustackVpn (k.pool s) 0)).page ≠ 0 := by
  unfold pushArgv at done
  split at done
  · simp at done
  · split at done
    · simp at done
    · rename_i root rooted
      refine ⟨root, rooted, ?_⟩
      obtain ⟨page, address, rest⟩ := bind_ok.mp done
      split at rest
      · simp at rest
      · rename_i found
        rw [walkaddr_eq, Except.ok.injEq] at address
        rw [← address] at found
        intro zero
        simp [zero] at found

theorem imagePages_le (length : BitVec 32) : imagePages length ≤ 2 ^ 20 := by
  have bound := length.isLt
  rw [imagePages]
  omega

/-- A program that is loaded has a main thread with a stack of its own. -/
structure Loaded (l : Layout) (k after : Kernel) (s : Slot) : Prop where
  kept : Kept l after
  unused : (k.pool s).threads 0 = .unused
  main : (after.pool s).threads 0 = .used
  state : (after.pool s).state = (k.pool s).state
  others : ∀ r, r ≠ s → after.pool r = k.pool r

/-- A process when the pages of its program are mapped. -/
def sized (p : Process) (length : BitVec 32) : Process :=
  { p with maxPage := 1 + imagePages length, ustackBase := 2 + imagePages length }

/-- The kernel when `bin_loader` has mapped the pages of the program and not yet its main thread. -/
def imaged (k : Kernel) (s : Slot) (length : BitVec 32) (m : Memory) : Kernel :=
  { k.setProcess s (sized (k.pool s) length) with memory := m }

section imaged

variable {length : BitVec 32} {fits : Bool}

@[simp] theorem imaged_pool (k : Kernel) (s : Slot) (length : BitVec 32) (m : Memory) :
    (imaged k s length m).pool s = sized (k.pool s) length := setProcess_self ..

/-- The page table stays. -/
theorem imaged_root (rooted : (k.pool s).pagetable = some root) (length : BitVec 32) (m : Memory) :
    ((imaged k s length m).pool s).pagetable = some root := by
  rw [imaged_pool]
  exact rooted

@[simp] theorem imaged_memory (k : Kernel) (s : Slot) (length : BitVec 32) (m : Memory) :
    (imaged k s length m).memory = m := rfl

theorem imaged_holding (k : Kernel) (s : Slot) (length : BitVec 32) (m : Memory) :
    (imaged k s length m).holding = k.holding :=
  (setProcess_holding k s _).trans (Holding.setRoot_self k.holding s)

theorem Kept.imaged (kept : Kept l k) (rooted : (k.pool s).pagetable = some root)
    (loading : loadPages root (imagePages length) 1 k.memory = .ok m) : Kept l (imaged k s length m) := by
  have held : k.holding.roots s = some root := rooted
  obtain ⟨sound, stays⟩ := loadPages_sound held rfl (imagePages length) kept.sound loading
  apply kept.rewrite (sized (k.pool s) length) sound stays rfl (kept.used s) fun u lives => Or.inl lives
  have limit := imagePages_le length
  have threads : nthread = 16 := rfl
  simp only [sized, threads]
  omega

/-- The steps of `bin_loader` for a process with a page table. -/
theorem binLoader_parts (rooted : (k.pool s).pagetable = some root) (done : binLoader l k s length = .ok (.done, after)) :
    ∃ m, loadPages root (imagePages length) 1 k.memory = .ok m ∧
      allocthread l (Vm.imaged k s length m) s root true = .ok (some 0, after) := by
  unfold binLoader at done
  rw [rooted] at done
  obtain ⟨m, loading, rest⟩ := bind_ok.mp done
  obtain ⟨⟨tid, threaded⟩, threading, last⟩ := bind_ok.mp rest
  simp only at last
  split at last
  · cases last
    exact ⟨m, loading, threading⟩
  · contradiction

/-- A process without a page table gets no program. -/
theorem binLoader_rooted (done : binLoader l k s length = .ok (.done, after)) : ∃ root, (k.pool s).pagetable = some root := by
  unfold binLoader at done
  split at done
  · split at done
    · split at done
      · simp at done
      · simp at done
    · simp at done
  · rename_i root rooted
    exact ⟨root, rooted⟩

/-- The stack of the main thread has a page when the arguments have been copied. -/
theorem Threaded.given (started : Threaded l (Vm.imaged k s length m) after s root 0) (rooted : (k.pool s).pagetable = some root)
    (argv : pushArgv after s fits = .ok ()) : (kalloc m).1 ≠ none := by
  intro denied
  have hole := started.unbacked denied
  obtain ⟨top, place, page⟩ := pushArgv_backed argv
  obtain ⟨maxPage, pool⟩ := started.pool
  simp only [pool, Function.update_self, Vm.started, imaged_pool, sized] at place page hole
  rw [rooted, Option.some.injEq] at place
  subst place
  exact page hole

/-- A program that `bin_loader` and `push_argv` accept is mapped to pages of its own. -/
theorem binLoader_loaded (kept : Kept l k) (done : binLoader l k s length = .ok (.done, after))
    (argv : pushArgv after s fits = .ok ()) : Loaded l k after s := by
  obtain ⟨root, rooted⟩ := binLoader_rooted done
  obtain ⟨m, loading, threading⟩ := binLoader_parts rooted done
  have loaded := kept.imaged rooted loading
  rcases allocthread_user loaded (imaged_root rooted length m) threading with ⟨impossible, _⟩ | ⟨t, main, started⟩
  · contradiction
  · obtain rfl := Option.some.inj main
    obtain ⟨maxPage, pool⟩ := started.pool
    have unused := started.unused
    rw [imaged_pool] at unused
    refine ⟨started.backed (started.given rooted argv), unused, ?_, ?_, fun r other => ?_⟩
    · simp [pool]
    · simp [pool, Vm.started, sized]
    · rw [pool, Function.update_of_ne other]
      exact setProcess_other k s _ other

end imaged

/-- A process whose main thread is gone has no thread, and a process that is not in use has none at all. -/
def LedBy (p : Process) : Prop :=
  (∀ t, alive (p.threads t) = true → alive (p.threads 0) = true) ∧ (p.state ≠ .used → ∀ t, p.threads t = .unused)

/-- Every process is led by its main thread. -/
def Led (k : Kernel) : Prop := ∀ s, LedBy (k.pool s)

theorem ledBy_main {p : Process} (lives : alive (p.threads 0) = true) (used : p.state = .used) : LedBy p :=
  ⟨fun _ _ => lives, fun other => absurd used other⟩

theorem ledBy_unused {p : Process} (unused : ∀ t, p.threads t = .unused) : LedBy p := by
  refine ⟨fun t lives => ?_, fun _ => unused⟩
  rw [unused t] at lives
  simp [alive] at lives

/-- A dead thread is given up for good. -/
theorem LedBy.release {p : Process} (led : LedBy p) (dead : alive (p.threads t) = false) : LedBy (threaded p t .unused) := by
  refine ⟨fun u lives => ?_, fun idle u => ?_⟩
  · have other : u ≠ t := by
      rintro rfl
      simp [alive] at lives
    rw [threaded_other p _ other] at lives
    have leader := led.1 u lives
    have different : 0 ≠ t := by
      rintro rfl
      rw [dead] at leader
      simp at leader
    rw [threaded_other p _ different]
    exact leader
  · by_cases own : u = t
    · rw [own, threaded_self]
    · rw [threaded_other p _ own]
      exact led.2 idle u

/-- One process is led, and all others are as before. -/
theorem Led.only (led : Led k) (own : LedBy (after.pool s)) (others : ∀ r, r ≠ s → after.pool r = k.pool r) : Led after := by
  intro r
  by_cases same : r = s
  · rw [same]
    exact own
  · rw [others r same]
    exact led r

/-- `kalloc` fails first and gives a page on the next call. -/
def starved (m : Memory) : Prop := (kalloc m).1 = none ∧ (kalloc (kalloc m).2).1 ≠ none

instance (m : Memory) : Decidable (starved m) := inferInstanceAs (Decidable (_ ∧ _))

/-- A copy to a missing page table touches no page when memory stays short. -/
theorem uvmcopy_unrooted {old : Page} {result : Attempt} {npages vpn : Nat} {last : Memory} (short : (kalloc m).1 = none)
    (done : uvmcopy l old none npages vpn m = .ok (result, last)) : last.free = m.free ∧ last.entry = m.entry := by
  induction npages generalizing vpn with
  | zero =>
      simp only [uvmcopy, Except.ok.injEq, Prod.mk.injEq] at done
      rw [← done.2]
      exact ⟨rfl, rfl⟩
  | succ npages ih =>
      rw [uvmcopy] at done
      obtain ⟨⟨found, same⟩, walked, rest⟩ := bind_ok.mp done
      cases found with
      | none => exact ih rest
      | some table =>
          simp only at rest
          split at rest
          · exact ih rest
          · split at rest
            · rename_i mid alloc missing
              simp only [pure, Except.pure, Except.ok.injEq, Prod.mk.injEq] at rest
              rw [← rest.2]
              exact kalloc_none alloc
            · rename_i impossible
              simp at impossible
            · rename_i page mid alloc missing
              rw [alloc] at short
              simp at short
            · rename_i impossible
              simp at impossible

/-- A copy to a page table never faults. -/
theorem uvmcopy_rooted {old : Page} {npages vpn : Nat} {last : Memory} :
    uvmcopy l old (some root) npages vpn m ≠ .ok (.faulted, last) := by
  intro done
  induction npages generalizing vpn m with
  | zero => simp [uvmcopy] at done
  | succ npages ih =>
      rw [uvmcopy] at done
      obtain ⟨⟨found, same⟩, walked, rest⟩ := bind_ok.mp done
      cases found with
      | none => exact ih rest
      | some table =>
          simp only at rest
          split at rest
          · exact ih rest
          · split at rest
            · rename_i impossible
              simp at impossible
            · obtain ⟨_, _, result⟩ := bind_ok.mp rest
              simp [pure, Except.pure] at result
            · rename_i impossible
              simp at impossible
            · rename_i page mid target alloc same
              obtain rfl := Option.some.inj same
              obtain ⟨⟨mapped, first⟩, _, tail⟩ := bind_ok.mp rest
              cases mapped with
              | false =>
                  obtain ⟨_, _, more⟩ := bind_ok.mp tail
                  obtain ⟨_, _, result⟩ := bind_ok.mp more
                  simp [pure, Except.pure] at result
              | true => exact ih tail

/-- The loader faults at once when the page table is missing. -/
theorem binLoader_faulted {length : BitVec 32} (kept : Kept l k)
    (short : (k.pool s).pagetable = none → (kalloc k.memory).1 = none)
    (done : binLoader l k s length = .ok (.faulted, after)) : Kept l after ∧ after.pool = k.pool := by
  unfold binLoader at done
  split at done
  · rename_i missing
    split at done
    · rename_i mid alloc
      split at done
      · simp at done
      · simp only [Except.ok.injEq, Prod.mk.injEq, true_and] at done
        subst done
        obtain ⟨sound, alike⟩ := alloc_failed kept.sound alloc
        exact ⟨kept.remember sound alike.stays, rfl⟩
    · rename_i page mid alloc
      have denied := short missing
      rw [alloc] at denied
      simp at denied
  · obtain ⟨m, _, rest⟩ := bind_ok.mp done
    obtain ⟨⟨tid, threaded⟩, _, last⟩ := bind_ok.mp rest
    simp only at last
    split at last
    · simp [pure, Except.pure] at last
    · simp at last

/-- The fault is noted. -/
theorem Kept.note (kept : Kept l k) (fault : Option (Slot × Tid)) : Kept l { k with fault } :=
  kept.remake kept.sound (fun _ _ _ _ _ => rfl) (fun _ => rfl) kept.used (fun _ _ lives => lives) kept.bounds

theorem fork_kept (kept : Kept l k) (led : Led k) (fed : ∀ r, (k.pool r).state = .unused → ¬starved k.memory) (used : (k.pool s).state = .used)
    (done : fork l k s t = .ok (after, events)) : Kept l after ∧ Led after := by
  obtain ⟨⟨slot, first⟩, allocating, rest⟩ := bind_ok.mp done
  obtain ⟨keptFirst, refused, fields⟩ := allocproc_kept kept allocating
  simp only at rest
  split at rest
  · simp at rest
  · simp at rest
  · rename_i np old rooted
    obtain ⟨unused, running, threads, others, missing⟩ := fields np rfl
    have different : s ≠ np := by
      rintro rfl
      rw [used] at unused
      simp at unused
    obtain ⟨⟨copied, m⟩, copying, tail⟩ := bind_ok.mp rest
    have source : first.holding.roots s = some old := by
      exact rooted
    have short (absent : (first.pool np).pagetable = none) : (kalloc first.memory).1 = none := by
      have denied := missing absent
      by_contra given
      apply fed np unused
      rw [starved, denied]
      exact ⟨rfl, given⟩
    have unchanged (absent : (first.pool np).pagetable = none) : Kept l { first with memory := m } := by
      rw [absent] at copying
      obtain ⟨free, entries⟩ := uvmcopy_unrooted (short absent) copying
      have alike := alike_entry entries first.holding.roots
      exact keptFirst.remember (keptFirst.sound.congr free alike) alike.stays
    have idle (u : Tid) : (first.pool np).threads u = .unused := by
      rw [threads]
      exact (led np).2 (by simp [unused]) u
    have ledFirst : Led first := led.only (ledBy_unused idle) others
    simp only at tail
    cases created : (first.pool np).pagetable with
    | none =>
        have kept := unchanged created
        rw [created] at tail
        cases copied with
        | done =>
            simp only [pure, Except.pure, Except.ok.injEq, Prod.mk.injEq] at tail
            rw [← tail.1]
            exact ⟨kept.note _, ledFirst⟩
        | failed => simp at tail
        | faulted =>
            simp only [pure, Except.pure, Except.ok.injEq, Prod.mk.injEq] at tail
            rw [← tail.1]
            exact ⟨kept.note _, ledFirst⟩
    | some root =>
        rw [created] at tail copying
        cases copied with
        | failed => simp at tail
        | faulted => exact absurd copying uvmcopy_rooted
        | done =>
            have bounds := keptFirst.bounds s
            have target : first.holding.roots np = some root := created
            have low : 0 + (first.pool s).maxPage ≤ systemVpn := by
              have high : 2 ^ 21 ≤ systemVpn := by decide
              omega
            obtain ⟨sound, stays⟩ := uvmcopy_sound source target rfl _ low keptFirst.sound copying
            let p : Process := { first.pool np with
              pagetable := some root, maxPage := (first.pool s).maxPage, ustackBase := (first.pool s).ustackBase
              parent := some s }
            have keptCopy : Kept l { first.setProcess np p with memory := m } :=
              keptFirst.rewrite p sound stays created.symm (fun _ => running) (fun u lives => Or.inl lives) bounds
            have rootedCopy : (({ first.setProcess np p with memory := m } : Kernel).pool np).pagetable = some root :=
              congrArg Process.pagetable (setProcess_self first np p)
            obtain ⟨⟨tid, threaded⟩, threading, last⟩ := bind_ok.mp tail
            obtain ⟨keptThread, threadFields⟩ := allocthread_fork keptCopy rootedCopy threading
            cases tid with
            | none => simp at last
            | some u =>
                simp only [pure, Except.pure, Except.ok.injEq, Prod.mk.injEq] at last
                obtain ⟨main, pool⟩ := threadFields u rfl
                have copied : ({ first.setProcess np p with memory := m } : Kernel).pool np = p := setProcess_self first np p
                rw [copied] at main pool
                obtain rfl := main (idle 0)
                rw [← last.1]
                refine ⟨keptThread.setThread _ fun _ => ?_, led.only (s := np) (ledBy_main ?_ ?_) fun r other => ?_⟩
                · rw [pool, Function.update_self, started_thread]
                  rfl
                · simp [Kernel.setThread, alive]
                · simp [Kernel.setThread, pool, started, p, running]
                · rw [Kernel.setThread, setProcess_other _ _ _ other, pool, Function.update_of_ne other]
                  exact (setProcess_other first np p other).trans (others r other)

/-- The main thread of a program that is loaded comes to life. -/
theorem Loaded.run (loaded : Loaded l k after s) (led : ∀ r, r ≠ s → LedBy (k.pool r)) (used : (k.pool s).state = .used)
    {state : ThreadState} (lives : alive state = true) :
    Kept l (after.setThread s 0 state) ∧ Led (after.setThread s 0 state) := by
  refine ⟨loaded.kept.setThread state fun _ => ?_, fun r => ?_⟩
  · rw [loaded.main]
    rfl
  · by_cases own : r = s
    · subst own
      apply ledBy_main
      · simp [Kernel.setThread, lives]
      · simp [Kernel.setThread, loaded.state, used]
    · rw [Kernel.setThread, setProcess_other _ _ _ own, loaded.others r own]
      exact led r own

theorem sysSpawn_kept {program : Option (BitVec 32)} {fits : Bool} (kept : Kept l k) (led : Led k)
    (fed : ∀ r, (k.pool r).state = .unused → ¬starved k.memory) (done : sysSpawn l k s t program fits = .ok (after, events)) : Kept l after ∧ Led after := by
  cases program with
  | none =>
      simp only [sysSpawn, Except.ok.injEq, Prod.mk.injEq] at done
      rw [← done.1]
      exact ⟨kept, led⟩
  | some length =>
      obtain ⟨⟨slot, first⟩, allocating, rest⟩ := bind_ok.mp done
      obtain ⟨keptFirst, refused, fields⟩ := allocproc_kept kept allocating
      cases slot with
      | none =>
          simp only [pure, Except.pure, Except.ok.injEq, Prod.mk.injEq] at rest
          rw [← rest.1, refused rfl]
          exact ⟨kept, led⟩
      | some np =>
          obtain ⟨unused, running, threads, others, missing⟩ := fields np rfl
          let p : Process := { first.pool np with parent := some s }
          have keptChild : Kept l (first.setProcess np p) :=
            keptFirst.rewrite p keptFirst.sound (fun _ _ _ _ _ => rfl) rfl (keptFirst.used np) (fun u lives => Or.inl lives)
              (keptFirst.bounds np)
          have own : (first.setProcess np p).pool np = p := setProcess_self first np p
          have away (r : Slot) (other : r ≠ np) : (first.setProcess np p).pool r = k.pool r :=
            (setProcess_other first np p other).trans (others r other)
          obtain ⟨⟨loaded, last⟩, loading, tail⟩ := bind_ok.mp rest
          cases loaded with
          | done =>
              obtain ⟨⟨⟩, argv, result⟩ := bind_ok.mp tail
              simp only [pure, Except.pure, Except.ok.injEq, Prod.mk.injEq] at result
              rw [← result.1]
              have child := binLoader_loaded keptChild loading argv
              apply child.run
              · intro r other
                rw [away r other]
                exact led r
              · rw [own]
                exact running
              · rfl
          | failed => simp at tail
          | faulted =>
              simp only [pure, Except.pure, Except.ok.injEq, Prod.mk.injEq] at tail
              rw [← tail.1]
              have short (absent : ((first.setProcess np p).pool np).pagetable = none) :
                  (kalloc (first.setProcess np p).memory).1 = none := by
                rw [own] at absent
                have denied := missing absent
                by_contra given
                apply fed np unused
                rw [starved, denied]
                exact ⟨rfl, given⟩
              obtain ⟨keptLast, pool⟩ := binLoader_faulted keptChild short loading
              refine ⟨keptLast.note _, led.only (s := np) (ledBy_unused fun u => ?_) fun r other => ?_⟩
              · change (last.pool np).threads u = .unused
                rw [pool, own]
                change (first.pool np).threads u = .unused
                rw [threads]
                exact (led np).2 (by simp [unused]) u
              · change last.pool r = k.pool r
                rw [pool]
                exact away r other

theorem loadInitApp_kept {length : BitVec 32} {fits : Bool} (kept : Kept l k) (led : Led k)
    (done : loadInitApp l k length fits = .ok (after, events)) : Kept l after ∧ Led after := by
  obtain ⟨⟨slot, first⟩, allocating, rest⟩ := bind_ok.mp done
  obtain ⟨keptFirst, _, fields⟩ := allocproc_kept kept allocating
  cases slot with
  | none => simp at rest
  | some s =>
      obtain ⟨_, running, _, others, _⟩ := fields s rfl
      obtain ⟨⟨loaded, last⟩, loading, tail⟩ := bind_ok.mp rest
      cases loaded with
      | done =>
          obtain ⟨⟨⟩, argv, result⟩ := bind_ok.mp tail
          simp only [pure, Except.pure, Except.ok.injEq, Prod.mk.injEq] at result
          rw [← result.1]
          apply (binLoader_loaded keptFirst loading argv).run _ running rfl
          intro r other
          rw [others r other]
          exact led r
      | failed => simp at tail
      | faulted => simp at tail

theorem exec_kept {program : Option (BitVec 32)} {fits : Bool} (kept : Kept l k) (led : Led k)
    (used : (k.pool s).state = .used) (lives : alive ((k.pool s).threads t) = true)
    (done : exec l k s t program fits = .ok (after, events)) : Kept l after ∧ Led after := by
  unfold exec at done
  split at done
  · simp only [Except.ok.injEq, Prod.mk.injEq] at done
    rw [← done.1]
    exact ⟨kept, led⟩
  · simp at done
  · rename_i length root rooted
    obtain ⟨freed, freeing, rest⟩ := bind_ok.mp done
    obtain ⟨m, unmapping, more⟩ := bind_ok.mp rest
    obtain ⟨⟨loaded, last⟩, loading, tail⟩ := bind_ok.mp more
    have keptFreed : Kept l (freed.setThread s t .unused) := kept.freethread lives rfl freeing
    have pool : freed.pool = k.pool := by
      obtain ⟨_, _, _, _, _, _, same⟩ := freethread_ok freeing
      rw [same]
    have own : (freed.setThread s t .unused).pool s = threaded (k.pool s) t .unused := by rw [setThread_self, pool]
    have away (r : Slot) (other : r ≠ s) : (freed.setThread s t .unused).pool r = k.pool r := by
      rw [setThread_away _ _ _ other, pool]
    have held : (freed.setThread s t .unused).holding.roots s = some root := by
      change ((freed.setThread s t .unused).pool s).pagetable = some root
      rw [own]
      exact rooted
    have changed := unmapRange_frees held _ keptFreed.sound unmapping
    have keptBare := keptFreed.remember changed.sound changed.stays
    cases loaded with
    | done =>
        obtain ⟨⟨⟩, argv, result⟩ := bind_ok.mp tail
        simp only [pure, Except.pure, Except.ok.injEq, Prod.mk.injEq] at result
        rw [← result.1]
        have program := binLoader_loaded keptBare loading argv
        -- the loader takes the first thread, so that only the main thread gets this far
        have main : t = 0 := by
          by_contra other
          have before := program.unused
          change ((freed.setThread s t .unused).pool s).threads 0 = .unused at before
          rw [own, threaded_other _ _ (Ne.symm other)] at before
          have leader := (led s).1 t lives
          rw [before] at leader
          simp [alive] at leader
        subst main
        apply program.run
        · intro r other
          change LedBy ((freed.setThread s 0 .unused).pool r)
          rw [away r other]
          exact led r
        · change ((freed.setThread s 0 .unused).pool s).state = .used
          rw [own]
          exact used
        · rfl
    | failed => simp at tail
    | faulted => simp at tail

theorem sysThreadCreate_kept (kept : Kept l k) (led : Led k) (used : (k.pool s).state = .used)
    (lives : alive ((k.pool s).threads t) = true) (given : ∀ u, (k.pool s).threads u = .unused → (kalloc k.memory).1 ≠ none)
    (done : sysThreadCreate l k s = .ok (after, events)) : Kept l after ∧ Led after := by
  unfold sysThreadCreate at done
  split at done
  · simp at done
  · rename_i root rooted
    obtain ⟨⟨tid, first⟩, threading, rest⟩ := bind_ok.mp done
    rcases allocthread_user kept rooted threading with ⟨rfl, rfl⟩ | ⟨u, rfl, started⟩
    · simp only [pure, Except.pure, Except.ok.injEq, Prod.mk.injEq] at rest
      rw [← rest.1]
      exact ⟨kept, led⟩
    · simp only [pure, Except.pure, Except.ok.injEq, Prod.mk.injEq] at rest
      rw [← rest.1]
      obtain ⟨maxPage, pool⟩ := started.pool
      have leader := (led s).1 t lives
      have different : 0 ≠ u := by
        rintro rfl
        rw [started.unused] at leader
        simp [alive] at leader
      refine ⟨(started.backed (given u started.unused)).setThread _ fun _ => ?_, led.only (s := s) (ledBy_main ?_ ?_) fun r other => ?_⟩
      · rw [pool, Function.update_self, started_thread]
        rfl
      · simp [Kernel.setThread, pool, Vm.started, different, leader]
      · simp [Kernel.setThread, pool, Vm.started, used]
      · rw [Kernel.setThread, setProcess_other _ _ _ other, pool, Function.update_of_ne other]

theorem sysWaittid_kept {tid : Int} (kept : Kept l k) (led : Led k) :
    Kept l (sysWaittid k s t tid).1 ∧ Led (sysWaittid k s t tid).1 := by
  unfold sysWaittid
  split
  · simp only
    split
    · exact ⟨kept, led⟩
    · split
      · exact ⟨kept, led⟩
      · rename_i inside _ exited
        rw [not_not] at exited
        have dead : alive ((k.pool s).threads ⟨tid.toNat, by omega⟩) = false := by
          rw [exited]
          rfl
        refine ⟨kept.setThread _ fun impossible => by simp [alive] at impossible, led.only (s := s) ?_ fun r => setThread_away k _ _⟩
        rw [setThread_self]
        exact (led s).release dead
  · exact ⟨kept, led⟩

/-- Protection bits that `sys_mmap` accepts make a leaf. -/
theorem prot_bits (prot : BitVec 32) (low : prot &&& 7 ≠ 0) : (prot.getLsbD 0 || prot.getLsbD 1 || prot.getLsbD 2) = true := by
  by_contra none
  simp only [Bool.or_eq_true, not_or, Bool.not_eq_true] at none
  obtain ⟨⟨zero, one⟩, two⟩ := none
  apply low
  apply BitVec.eq_of_getLsbD_eq
  intro i inside
  rw [BitVec.getLsbD_and]
  by_cases small : i < 3
  · rcases (by omega : i = 0 ∨ i = 1 ∨ i = 2) with rfl | rfl | rfl
    · exact (congrArg (· && _) zero).trans (Bool.false_and _)
    · exact (congrArg (· && _) one).trans (Bool.false_and _)
    · exact (congrArg (· && _) two).trans (Bool.false_and _)
  · have high : (7#32).getLsbD i = false := by
      rw [BitVec.getLsbD_ofNat, Bool.and_eq_false_iff]
      right
      exact Nat.testBit_lt_two_pow (Nat.lt_of_lt_of_le (by decide : 7 < 2 ^ 3) (Nat.pow_le_pow_right (by decide) (by omega)))
    simp [high]

theorem sysMmap_kept {start len : BitVec 64} {prot : BitVec 32} (kept : Kept l k) (led : Led k)
    (done : sysMmap l k s start len prot = .ok (after, events)) : Kept l after ∧ Led after := by
  unfold sysMmap at done
  split at done
  · simp at done
  · rename_i root rooted
    split_ifs at done with aligned bits low empty
    · simp only [Except.ok.injEq, Prod.mk.injEq] at done
      rw [← done.1]
      exact ⟨kept, led⟩
    · simp only [Except.ok.injEq, Prod.mk.injEq] at done
      rw [← done.1]
      exact ⟨kept, led⟩
    · simp only [Except.ok.injEq, Prod.mk.injEq] at done
      rw [← done.1]
      exact ⟨kept, led⟩
    · simp only [Except.ok.injEq, Prod.mk.injEq] at done
      rw [← done.1]
      exact ⟨kept, led⟩
    · obtain ⟨clear, checked, rest⟩ := bind_ok.mp done
      cases clear with
      | false =>
          simp only [pure, Except.pure, Except.ok.injEq, Prod.mk.injEq, Bool.not_false, if_true] at rest
          rw [← rest.1]
          exact ⟨kept, led⟩
      | true =>
          simp only [Bool.not_true, Bool.false_eq_true, if_false] at rest
          obtain ⟨⟨value, m⟩, mapping, result⟩ := bind_ok.mp rest
          simp only [pure, Except.pure, Except.ok.injEq, Prod.mk.injEq] at result
          rw [← result.1]
          have leaf : ({ r := prot.getLsbD 0, w := prot.getLsbD 1, x := prot.getLsbD 2, u := true } : Perm).leaf = true := prot_bits prot low
          have held : k.holding.roots s = some root := rooted
          obtain ⟨sound, stays⟩ := mmapLoop_sound held rfl rfl leaf _ kept.sound mapping
          exact ⟨kept.remember sound stays, led⟩

theorem sysMunmap_kept {start len : BitVec 64} (kept : Kept l k) (led : Led k)
    (done : sysMunmap l k s start len = .ok (after, events)) : Kept l after ∧ Led after := by
  unfold sysMunmap at done
  split at done
  · simp at done
  · rename_i root rooted
    split_ifs at done with aligned empty
    · simp only [Except.ok.injEq, Prod.mk.injEq] at done
      rw [← done.1]
      exact ⟨kept, led⟩
    · simp only [Except.ok.injEq, Prod.mk.injEq] at done
      rw [← done.1]
      exact ⟨kept, led⟩
    · obtain ⟨mapped, checked, rest⟩ := bind_ok.mp done
      cases mapped with
      | false =>
          simp only [pure, Except.pure, Except.ok.injEq, Prod.mk.injEq, Bool.not_false, if_true] at rest
          rw [← rest.1]
          exact ⟨kept, led⟩
      | true =>
          simp only [Bool.not_true, Bool.false_eq_true, if_false] at rest
          obtain ⟨m, unmapping, result⟩ := bind_ok.mp rest
          simp only [pure, Except.pure, Except.ok.injEq, Prod.mk.injEq] at result
          rw [← result.1]
          have held : k.holding.roots s = some root := rooted
          have changed := unmapRange_frees held _ kept.sound unmapping
          exact ⟨kept.remember changed.sound changed.stays, led⟩

end BtbuOs.Vm
