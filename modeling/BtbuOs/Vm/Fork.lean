import BtbuOs.Vm.Uvmcopy

namespace BtbuOs.Vm

open Machine Partition
open Sync (nthread Tid ThreadState)
open Sched (nproc Slot ProcState)

/-- The words of `struct trapframe`. -/
abbrev Trapframe := Fin 36 → BitVec 64

instance neZeroWords : NeZero 36 := ⟨by decide⟩

/-- The offset of `a0` in `struct trapframe` is 112. -/
def a0 : Fin 36 := 14

/-- The kernel with the bytes of its pages, the trap frames of the threads and the numbers of the processes. -/
structure World where
  kernel : Kernel
  bytes : Bytes
  frames : Slot → Tid → Trapframe
  pid : Slot → Nat
  nextPid : Nat

namespace World

def setFrame (w : World) (s : Slot) (t : Tid) (frame : Trapframe) : World :=
  { w with frames := Function.update w.frames s (Function.update (w.frames s) t frame) }

end World

/-- The whole frame that `allocthread` has set up is overwritten by the frame of the main thread of the caller. -/
def forkWorld (l : Layout) (w : World) (s : Slot) (t : Tid) : Except String (World × Option Nat) := do
  let (slot, k) ← allocproc l w.kernel
  match slot, (k.pool s).pagetable with
  | none, _ => .error "allocproc\n"
  | some _, none => .error "fault"
  | some np, some old =>
      let w := { w with pid := Function.update w.pid np w.nextPid, nextPid := w.nextPid + 1 }
      let (copied, m, b) ← uvmcopyBytes l old (k.pool np).pagetable (k.pool s).maxPage 0 k.memory w.bytes
      let k := { k with memory := m }
      match copied, (k.pool np).pagetable with
      | .failed, _ => .error "uvmcopy\n"
      | .faulted, _ => return ({ w with kernel := { k with fault := some (s, t) }, bytes := b }, none)
      | .done, none => return ({ w with kernel := { k with fault := some (s, t) }, bytes := b }, none)
      | .done, some root =>
          let k := k.setProcess np { k.pool np with
            maxPage := (k.pool s).maxPage, ustackBase := (k.pool s).ustackBase, parent := some s }
          let (tid, k) ← allocthread l k np root false
          match tid with
          | none => .error "threads[-1]"
          | some tid =>
              let w := { w with kernel := k.setThread np tid .runnable, bytes := b }
              return (w.setFrame np tid (Function.update (w.frames s 0) a0 0), some (w.pid np))

/-- The system call leaves its result in the caller's `a0`. -/
def sysFork (l : Layout) (w : World) (s : Slot) (t : Tid) : Except String (World × Option Nat) := do
  let (w, pid) ← forkWorld l w s t
  match pid with
  | none => return (w, none)
  | some pid => return (w.setFrame s t (Function.update (w.frames s t) a0 (BitVec.ofNat 64 pid)), some pid)

variable {l : Layout} {k after : Kernel} {m last : Memory} {h : Holding} {s np : Slot} {t : Tid} {root : Page}

/-- The call without bytes, trap frames and numbers is the one of the kernel. -/
theorem forkWorld_forget (l : Layout) (w : World) (s : Slot) (t : Tid) :
    (forkWorld l w s t).map (fun result => (result.1.kernel, [])) = fork l w.kernel s t := by
  unfold forkWorld fork
  cases allocproc l w.kernel with
  | error message => rfl
  | ok result =>
      obtain ⟨slot, k⟩ := result
      simp only [bind, Except.bind]
      cases slot with
      | none => rfl
      | some np =>
          cases (k.pool s).pagetable with
          | none => rfl
          | some old =>
              simp only
              rw [← uvmcopyBytes_forget l old _ _ _ _ w.bytes]
              cases uvmcopyBytes l old (k.pool np).pagetable (k.pool s).maxPage 0 k.memory w.bytes with
              | error message => rfl
              | ok result =>
                  obtain ⟨copied, m, b⟩ := result
                  simp only [Except.map]
                  cases copied with
                  | failed => rfl
                  | faulted => rfl
                  | done =>
                      cases (k.pool np).pagetable with
                      | none => rfl
                      | some root =>
                          simp only
                          cases allocthread l _ np root false with
                          | error message => rfl
                          | ok result =>
                              obtain ⟨tid, k⟩ := result
                              cases tid with
                              | none => rfl
                              | some tid => rfl

/-- A new process has taken a free slot and has a new page table. -/
theorem allocproc_ok (done : allocproc l k = .ok (some np, after)) : (k.pool np).state = .unused ∧ ∃ created m,
    uvmcreate l k.memory = .ok (created, m) ∧ after = { k.setProcess np { k.pool np with
      state := .used, parent := none, pagetable := created, maxPage := 0 } with memory := m } := by
  unfold allocproc at done
  split at done
  · simp at done
  · rename_i s found
    have unused := List.find?_some found
    rw [decide_eq_true_eq] at unused
    obtain ⟨⟨created, m⟩, creating, rest⟩ := bind_ok.mp done
    simp only [pure, Except.pure, Except.ok.injEq, Prod.mk.injEq, Option.some.injEq] at rest
    obtain ⟨rfl, rfl⟩ := rest
    exact ⟨unused, created, m, creating, rfl⟩

/-- A new page table leaves the other ones in place. -/
theorem uvmcreate_others (sound : Sound l m h) (vacant : h.roots s = none) (done : uvmcreate l m = .ok (some root, last)) :
    (∀ r v, r ≠ s → v < maxVpn → space last (h.roots r) v = space m (h.roots r) v) ∧
      ∀ page, page ∈ last.free → page ∈ m.free := by
  unfold uvmcreate at done
  split at done
  · simp at done
  · rename_i page mid alloc
    obtain ⟨⟨mapped, final⟩, mapping, rest⟩ := bind_ok.mp done
    cases mapped with
    | false => simp at rest
    | true =>
        simp only [if_true, pure, Except.pure, Except.ok.injEq, Prod.mk.injEq, Option.some.injEq] at rest
        obtain ⟨rfl, rfl⟩ := rest
        obtain ⟨planted, alike⟩ := plant_sound sound vacant alloc
        have own : (h.setRoot s (some page)).roots s = some page := Function.update_self ..
        constructor
        · intro r v other inside
          have same := (mapPage_touched planted.forest own mapping).space r inside fun both => other both.1
          rw [show (h.setRoot s (some page)).roots r = h.roots r from Function.update_of_ne other ..] at same
          rw [same, alike.space r v]
        · intro known listed
          rw [(kalloc_some alloc).1]
          exact List.mem_cons_of_mem page (mapPage_free planted.forest own mapping known listed)

/-- A thread without pages for the user changes the entry of its trap frame. -/
theorem allocthread_bare (sound : Sound l k.memory k.holding) (rooted : (k.pool s).pagetable = some root)
    (done : allocthread l k s root false = .ok (some t, after)) :
    after.pool = (k.setThread s t .used).pool ∧ ((k.pool s).threads 0 = .unused → t = 0) ∧
      Touched k.memory after.memory k.holding.roots s (· = trapframeVpn t) ∧
      userPage (space after.memory (k.holding.roots s) (trapframeVpn t)) = none := by
  have held : k.holding.roots s = some root := rooted
  unfold allocthread at done
  split at done
  · simp at done
  · rename_i u found
    simp only [Bool.false_eq_true, if_false] at done
    obtain ⟨mid, same, rest⟩ := bind_ok.mp done
    simp only [Except.ok.injEq] at same
    subst same
    obtain ⟨⟨mapped, m⟩, mapping, result⟩ := bind_ok.mp rest
    cases mapped with
    | false => simp at result
    | true =>
        simp only [if_true, pure, Except.pure, Except.ok.injEq, Prod.mk.injEq, Option.some.injEq] at result
        obtain ⟨rfl, rfl⟩ := result
        obtain ⟨_, _, _, _, entry⟩ := mapPage_adds sound.forest held mapping
        refine ⟨rfl, fun main => first_unused main found, ?_, ?_⟩
        · exact (mapPage_touched sound.forest held mapping).mono fun v both => both.2
        · change userPage (space m (k.holding.roots s) (trapframeVpn u)) = none
          rw [entry]
          rfl

/-- The child maps a page number with the flags of its parent to a page that was free and holds the bytes of the page of
its parent. -/
def CopiedPage (w after : World) (s np : Slot) (v : Nat) : Prop :=
  ∃ copy, space after.kernel.memory (after.kernel.pool np).pagetable v =
      { space w.kernel.memory (w.kernel.pool s).pagetable v with page := copy } ∧ copy ∈ w.kernel.memory.free ∧
    after.bytes copy = w.bytes (space w.kernel.memory (w.kernel.pool s).pagetable v).page

/-- The pages of a process below `max_page` and the registers of its main thread are duplicated, and nothing of the old
processes changes but the result in the caller's `a0`. -/
structure Duplicated (w after : World) (s : Slot) (t : Tid) (np : Slot) (pid : Nat) : Prop where
  fresh : (w.kernel.pool np).state = .unused
  number : after.pid np = pid
  copied : ∀ v, v < (w.kernel.pool s).maxPage →
    userPage (space w.kernel.memory (w.kernel.pool s).pagetable v) ≠ none → CopiedPage w after s np v
  only : ∀ v, v < maxVpn → userPage (space after.kernel.memory (after.kernel.pool np).pagetable v) ≠ none →
    userPage (space w.kernel.memory (w.kernel.pool s).pagetable v) ≠ none ∧ CopiedPage w after s np v
  main : (after.kernel.pool np).threads 0 = .runnable
  frame : after.frames np 0 = Function.update (w.frames s 0) a0 0
  spaces : ∀ r v, r ≠ np → v < maxVpn → space after.kernel.memory (after.kernel.pool r).pagetable v =
    space w.kernel.memory (w.kernel.pool r).pagetable v
  bytes : ∀ page, page ∉ w.kernel.memory.free → after.bytes page = w.bytes page
  registers : ∀ r u i, r ≠ np → ¬(r = s ∧ u = t ∧ i = a0) → after.frames r u i = w.frames r u i
  result : after.frames s t a0 = BitVec.ofNat 64 pid

variable {w done : World} {t : Tid} {pid : Nat}

/-- The process that `fork` copies. -/
def forked (p parent : Process) (s : Slot) : Process :=
  { p with maxPage := parent.maxPage, ustackBase := parent.ustackBase, parent := some s }

/-- The parts of a call of `fork` that returns a number. -/
theorem forkWorld_parts (ran : forkWorld l w s t = .ok (done, some pid)) : ∃ np first old root m b u last,
    allocproc l w.kernel = .ok (some np, first) ∧ (first.pool s).pagetable = some old ∧
      (first.pool np).pagetable = some root ∧
      uvmcopyBytes l old (some root) (first.pool s).maxPage 0 first.memory w.bytes = .ok (.done, m, b) ∧
      allocthread l ({ first with memory := m }.setProcess np (forked (first.pool np) (first.pool s) s)) np root false =
        .ok (some u, last) ∧ pid = w.nextPid ∧
      done = World.setFrame
        { kernel := last.setThread np u .runnable, bytes := b, frames := w.frames
          pid := Function.update w.pid np w.nextPid, nextPid := w.nextPid + 1 }
        np u (Function.update (w.frames s 0) a0 0) := by
  obtain ⟨⟨slot, first⟩, allocating, rest⟩ := bind_ok.mp ran
  simp only at rest
  split at rest
  · simp at rest
  · simp at rest
  · rename_i np old rooted
    obtain ⟨⟨copied, m, b⟩, copying, tail⟩ := bind_ok.mp rest
    simp only at tail
    split at tail
    · simp at tail
    · simp [pure, Except.pure] at tail
    · simp [pure, Except.pure] at tail
    · rename_i root created
      have place : (first.pool np).pagetable = some root := created
      obtain ⟨⟨tid, last⟩, threading, final⟩ := bind_ok.mp tail
      cases tid with
      | none => simp at final
      | some u =>
          simp only [pure, Except.pure, Except.ok.injEq, Prod.mk.injEq, Option.some.injEq] at final
          obtain ⟨rfl, rfl⟩ := final
          rw [place] at copying
          exact ⟨np, first, old, root, m, b, u, last, allocating, rooted, place, copying, threading,
            Function.update_self .., rfl⟩

/-- What `fork` does to memory: the pages of the parent are copied to the page table of the child, which shows nothing else
to the user, and all other page tables show what they showed. -/
structure ForkMemory (l : Layout) (w done : World) (s np : Slot) : Prop where
  fresh : (w.kernel.pool np).state = .unused
  copied : ∀ v, v < (w.kernel.pool s).maxPage →
    userPage (space w.kernel.memory (w.kernel.pool s).pagetable v) ≠ none → CopiedPage w done s np v
  only : ∀ v, v < maxVpn → userPage (space done.kernel.memory (done.kernel.pool np).pagetable v) ≠ none →
    v < (w.kernel.pool s).maxPage ∧ userPage (space w.kernel.memory (w.kernel.pool s).pagetable v) ≠ none
  main : (done.kernel.pool np).threads 0 = .runnable
  spaces : ∀ r v, r ≠ np → v < maxVpn → space done.kernel.memory (done.kernel.pool r).pagetable v =
    space w.kernel.memory (w.kernel.pool r).pagetable v
  bytes : ∀ page, page ∉ w.kernel.memory.free → done.bytes page = w.bytes page

theorem forkWorld_memory (kept : Kept l w.kernel) (led : Led w.kernel) (used : (w.kernel.pool s).state = .used)
    (ran : forkWorld l w s t = .ok (done, some pid)) : ∃ np, ForkMemory l w done s np ∧ pid = w.nextPid ∧
      done.pid = Function.update w.pid np w.nextPid ∧
      done.frames = Function.update w.frames np (Function.update (w.frames np) 0 (Function.update (w.frames s 0) a0 0)) := by
  obtain ⟨np, first, old, root, m, b, u, last, allocating, source, rooted, copying, threading, same, rfl⟩ := forkWorld_parts ran
  obtain ⟨keptFirst, _, fields⟩ := allocproc_kept kept allocating
  obtain ⟨unused, _, threads, others, _⟩ := fields np rfl
  obtain ⟨_, created, m₁, creating, shape⟩ := allocproc_ok allocating
  have different : s ≠ np := by
    rintro rfl
    rw [used] at unused
    simp at unused
  have vacant : w.kernel.holding.roots np = none := by
    by_contra held
    rw [kept.used np held] at unused
    simp at unused
  have memory : first.memory = m₁ := by rw [shape]
  have place : created = some root := by
    rw [shape] at rooted
    exact (congrArg Process.pagetable (setProcess_self w.kernel np _)).symm.trans rooted
  rw [place, ← memory] at creating
  obtain ⟨elsewhere, fewer⟩ := uvmcreate_others kept.sound vacant creating
  have parent : first.pool s = w.kernel.pool s := others s different
  have low : 0 + (first.pool s).maxPage ≤ systemVpn := by
    have high : 2 ^ 21 ≤ systemVpn := by decide
    have bound := (keptFirst.bounds s).1
    omega
  have copies := Copies.loop (h := first.holding) (s := np) (r := s) source rooted different rfl _ low keptFirst.sound copying
  have holding : ({ first with memory := m }.setProcess np (forked (first.pool np) (first.pool s) s)).holding =
      first.holding := by
    rw [setProcess_holding]
    exact Holding.setRoot_self first.holding np
  have own : ({ first with memory := m }.setProcess np (forked (first.pool np) (first.pool s) s)).pool np =
      forked (first.pool np) (first.pool s) s := setProcess_self ..
  have rootedFork : (({ first with memory := m }.setProcess np (forked (first.pool np) (first.pool s) s)).pool np).pagetable =
      some root := by
    rw [own]
    exact rooted
  obtain ⟨pool, main, touched, frame⟩ := allocthread_bare (by rw [holding]; exact copies.sound) rootedFork threading
  rw [holding] at touched frame
  obtain rfl : u = 0 := by
    apply main
    rw [own, forked, threads]
    exact (led np).2 (by simp [unused]) 0
  have touched : Touched m last.memory first.holding.roots np (· = trapframeVpn 0) := touched
  have roots (r : Slot) : ((last.setThread np 0 .runnable).pool r).pagetable = first.holding.roots r := by
    by_cases mine : r = np
    · subst mine
      rw [setThread_self, pool, setThread_self, own]
      rfl
    · rw [setThread_away _ _ _ mine, pool, setThread_away _ _ _ mine, setProcess_other _ _ _ mine]
      rfl
  have before (r : Slot) (other : r ≠ np) {v : Nat} (inside : v < maxVpn) :
      space first.memory (first.holding.roots r) v = space w.kernel.memory (w.kernel.pool r).pagetable v := by
    have root : first.holding.roots r = (w.kernel.pool r).pagetable := congrArg Process.pagetable (others r other)
    rw [root]
    exact elsewhere r v other inside
  have valid {v : Nat} (inside : v < maxVpn)
      (mapped : userPage (space w.kernel.memory (w.kernel.pool s).pagetable v) ≠ none) :
      (space first.memory (first.holding.roots s) v).valid = true := by
    rw [before s different inside]
    by_contra invalid
    exact mapped (userPage_invalid (by simpa using invalid))
  have limit : (w.kernel.pool s).maxPage ≤ 2 ^ 21 := (kept.bounds s).1
  have top : systemVpn = 2 ^ 26 - 18 := rfl
  have all : maxVpn = 2 ^ 26 := rfl
  have high := trapframe_high 0
  have copiedPage {v : Nat} (below : v < (w.kernel.pool s).maxPage)
      (mapped : userPage (space w.kernel.memory (w.kernel.pool s).pagetable v) ≠ none) :
      CopiedPage w (World.setFrame
        { kernel := last.setThread np 0 .runnable, bytes := b, frames := w.frames
          pid := Function.update w.pid np w.nextPid, nextPid := w.nextPid + 1 }
        np 0 (Function.update (w.frames s 0) a0 0)) s np v := by
    have inside : v < maxVpn := by omega
    have here : 0 ≤ v ∧ v < 0 + (first.pool s).maxPage ∧ (space first.memory (first.holding.roots s) v).valid = true := by
      rw [parent]
      exact ⟨Nat.zero_le v, by omega, valid inside mapped⟩
    obtain ⟨copy, entry, listed⟩ := copies.fresh v here
    have mine : userPage (space m (first.holding.roots np) v) = some copy := by
      rw [entry]
      simp [userPage, (copies.source v here).2]
    refine ⟨copy, ?_, fewer copy listed, ?_⟩
    · have same := touched.space np inside fun both => by omega
      rw [entry, before s different inside] at same
      have present := valid inside mapped
      rw [before s different inside] at present
      change space last.memory ((last.setThread np 0 .runnable).pool np).pagetable v = _
      rw [roots np, same, ← present]
    · have data := copies.data v copy here mine
      rwa [before s different inside] at data
  refine ⟨np, ⟨unused, fun v below mapped => copiedPage below mapped, fun v inside mapped => ?_, ?_, fun r v other inside => ?_,
    fun page taken => ?_⟩, same, rfl, rfl⟩
  · change userPage (space last.memory ((last.setThread np 0 .runnable).pool np).pagetable v) ≠ none at mapped
    rw [roots np] at mapped
    have apart : v ≠ trapframeVpn 0 := by
      rintro rfl
      exact mapped frame
    rw [touched.space np inside fun both => apart both.2] at mapped
    by_cases here : 0 ≤ v ∧ v < 0 + (first.pool s).maxPage ∧ (space first.memory (first.holding.roots s) v).valid = true
    · obtain ⟨present, user⟩ := copies.source v here
      rw [before s different inside] at present user
      rw [parent] at here
      exact ⟨by omega, by simp [userPage, present, user]⟩
    · rw [copies.space inside here] at mapped
      have rootedFirst : first.holding.roots np = some root := rooted
      by_cases tramp : v = trampolineVpn
      · rw [rootedFirst, tramp, keptFirst.trampoline np root rooted] at mapped
        exact absurd rfl mapped
      · rw [rootedFirst] at mapped
        exact absurd (userPage_invalid (uvmcreate_blank kept.sound vacant creating inside tramp)) mapped
  · change ((last.setThread np 0 .runnable).pool np).threads 0 = .runnable
    rw [setThread_self, threaded_self]
  · change space last.memory ((last.setThread np 0 .runnable).pool r).pagetable v = _
    rw [roots r, touched.space r inside fun both => other both.1, copies.touched.space r inside fun both => other both.1,
      before r other inside]
  · exact copies.bytes page fun listed => taken (fewer page listed)

/-- A call of `fork` that returns a number duplicates the pages of the caller's process below `max_page` and the registers of
its main thread. -/
theorem fork_duplicates (kept : Kept l w.kernel) (led : Led w.kernel) (used : (w.kernel.pool s).state = .used)
    (ran : sysFork l w s t = .ok (done, some pid)) : ∃ np, Duplicated w done s t np pid := by
  obtain ⟨⟨mid, result⟩, forking, rest⟩ := bind_ok.mp ran
  cases result with
  | none => simp [pure, Except.pure] at rest
  | some number =>
      simp only [pure, Except.pure, Except.ok.injEq, Prod.mk.injEq, Option.some.injEq] at rest
      obtain ⟨rfl, rfl⟩ := rest
      obtain ⟨np, memory, rfl, pids, frames⟩ := forkWorld_memory kept led used forking
      have different : s ≠ np := by
        rintro rfl
        have fresh := memory.fresh
        rw [used] at fresh
        simp at fresh
      have child : np ≠ s := Ne.symm different
      refine ⟨np, memory.fresh, ?_, memory.copied, fun v inside mapped => ?_, memory.main, ?_, memory.spaces, memory.bytes,
        fun r u i other away => ?_, ?_⟩
      · change mid.pid np = w.nextPid
        rw [pids, Function.update_self]
      · obtain ⟨below, user⟩ := memory.only v inside mapped
        exact ⟨user, memory.copied v below user⟩
      · change Function.update mid.frames s _ np 0 = _
        rw [Function.update_of_ne child, frames, Function.update_self, Function.update_self]
      · change Function.update mid.frames s (Function.update (mid.frames s) t _) r u i = w.frames r u i
        have same (q : Slot) (elsewhere : q ≠ np) : mid.frames q = w.frames q := by
          rw [frames, Function.update_of_ne elsewhere]
        by_cases mine : r = s
        · subst mine
          rw [Function.update_self]
          by_cases own : u = t
          · subst own
            rw [Function.update_self, Function.update_of_ne fun first => away ⟨rfl, rfl, first⟩, same r other]
          · rw [Function.update_of_ne own, same r other]
        · rw [Function.update_of_ne mine, same r other]
      · change Function.update mid.frames s (Function.update (mid.frames s) t _) s t a0 = _
        rw [Function.update_self, Function.update_self, Function.update_self]

/-- A world whose registers are 0 but for one word of the main thread of the first process. -/
def numbered (k : Kernel) (value : BitVec 64) : World where
  kernel := k
  bytes := blankBytes
  frames s u i := if s = 0 ∧ u = 0 ∧ i = 15 then value else 0
  pid := fun _ => 1
  nextPid := 2

/-- The first program duplicates itself. -/
theorem fork_duplicates_run : ∃ k trace done np,
    Reaches (step (smallLayout 30)) (fun k _ action => fed k action = true) (· = bootKernel (smallLayout 30)) k trace ∧
      sysFork (smallLayout 30) (numbered k 7) 0 0 = .ok (done, some 2) ∧ Duplicated (numbered k 7) done 0 0 np 2 := by
  obtain ⟨k, trace, reached, test⟩ := replay_witness (step (smallLayout 30)) (fun k _ action => fed k action = true)
    (· = bootKernel (smallLayout 30)) loadRun (bootKernel (smallLayout 30)) rfl
    (fun k _ => decide ((k.pool 0).state = .used) &&
      decide ((sysFork (smallLayout 30) (numbered k 7) 0 0).toOption.map Prod.snd = some (some 2))) (by decide +kernel)
  rw [Bool.and_eq_true, decide_eq_true_eq, decide_eq_true_eq, Option.map_eq_some_iff] at test
  obtain ⟨used, ⟨done, number⟩, ran, rfl⟩ := test
  obtain ⟨kept, led⟩ := reached_kept reached
  obtain ⟨np, duplicated⟩ := fork_duplicates (w := numbered k 7) kept led used (toOption_some.mp ran)
  exact ⟨k, trace, done, np, reached, toOption_some.mp ran, duplicated⟩

/-- A program creates a thread and maps a page far up. -/
def forkRun : List Action := createRun ++ [mmapCall 0x100000]

/-- The second thread forks: the child resumes with a register of the main thread, and the page far up is not mapped. -/
theorem fork_differs : ∃ k trace done,
    Reaches (step (smallLayout 30)) (fun k _ action => fed k action = true) (· = bootKernel (smallLayout 30)) k trace ∧
      sysFork (smallLayout 30) (numbered k 7) 0 1 = .ok (done, some 2) ∧ done.pid 1 = 2 ∧
      done.frames 1 0 15 = 7 ∧ (numbered k 7).frames 0 1 15 = 0 ∧
      userPage (space k.memory (k.pool 0).pagetable 256) ≠ none ∧
      userPage (space done.kernel.memory (done.kernel.pool 1).pagetable 256) = none := by
  obtain ⟨k, trace, reached, test⟩ := replay_witness (step (smallLayout 30)) (fun k _ action => fed k action = true)
    (· = bootKernel (smallLayout 30)) forkRun (bootKernel (smallLayout 30)) rfl
    (fun k _ => decide (userPage (space k.memory (k.pool 0).pagetable 256) ≠ none) &&
      (sysFork (smallLayout 30) (numbered k 7) 0 1).toOption.any fun result : World × Option Nat =>
        decide (result.2 = some 2 ∧ result.1.pid 1 = 2 ∧ result.1.frames 1 0 15 = 7 ∧
          userPage (space result.1.kernel.memory (result.1.kernel.pool 1).pagetable 256) = none)) (by decide +kernel)
  rw [Bool.and_eq_true, decide_eq_true_eq, Option.any_eq_true] at test
  obtain ⟨mapped, ⟨done, number⟩, ran, facts⟩ := test
  rw [decide_eq_true_eq] at facts
  obtain ⟨rfl, pid, frame, lost⟩ := facts
  exact ⟨k, trace, done, reached, toOption_some.mp ran, pid, frame, rfl, mapped, lost⟩

end BtbuOs.Vm
