import BtbuOs.Vm.Spaces

namespace BtbuOs.Vm

open Machine Partition
open Sync (nthread Tid ThreadState)
open Sched (nproc Slot ProcState)

/-- The page tables and objects of the kernel; between two calls kernel code holds no page. -/
def Kernel.holding (k : Kernel) : Holding where
  roots s := (k.pool s).pagetable
  objects := k.objects
  hand := none

/-- The invariant of the kernel. -/
structure Kept (l : Layout) (k : Kernel) : Prop where
  sound : Sound l k.memory k.holding
  used : ∀ s, (k.pool s).pagetable ≠ none → (k.pool s).state = .used
  rooted : ∀ s t, alive ((k.pool s).threads t) = true → (k.pool s).pagetable ≠ none
  trampoline : ∀ s root, (k.pool s).pagetable = some root → space k.memory (some root) trampolineVpn = trampolinePte l
  trapframe : ∀ s t, alive ((k.pool s).threads t) = true →
    space k.memory (k.pool s).pagetable (trapframeVpn t) = trapframePte l s t
  bounds : ∀ s, (k.pool s).maxPage ≤ 2 ^ 21 ∧ (k.pool s).ustackBase + nthread ≤ 2 ^ 21

variable {l : Layout} {k after : Kernel} {m : Memory} {s np : Slot} {t : Tid} {root : Page}

theorem trampoline_inside : trampolineVpn < maxVpn := by decide

theorem trapframe_inside (t : Tid) : trapframeVpn t < maxVpn := by
  simp only [trapframeVpn, maxVpn, Nat.reducePow]
  omega

theorem trapframe_high (t : Tid) : systemVpn ≤ trapframeVpn t := by
  have bound : t.val < 16 := t.isLt
  simp only [trapframeVpn, systemVpn, maxVpn, Nat.reducePow]
  omega

theorem trapframe_inj {t u : Tid} (same : trapframeVpn t = trapframeVpn u) : t = u := by
  have bound : t.val < 16 := t.isLt
  have boundOther : u.val < 16 := u.isLt
  simp only [trapframeVpn, maxVpn, Nat.reducePow] at same
  exact Fin.ext (by omega)

theorem trapframe_trampoline (t : Tid) : trampolineVpn ≠ trapframeVpn t := by
  simp only [trampolineVpn, trapframeVpn, maxVpn, Nat.reducePow]
  omega

theorem trapframe_unmanaged (l : Layout) (s : Slot) (t : Tid) : ¬Managed l (l.trapframe s t) :=
  fun managed => absurd (l.trapframe_lt s t) (Nat.not_lt.mpr managed.1)

/-- The mappings of one process for the kernel stay in place. -/
def StaysOf (m after : Memory) (root : Option Page) : Prop :=
  ∀ vpn, vpn < maxVpn → (space m root vpn).valid = true → (space m root vpn).perm.u = false →
    space after root vpn = space m root vpn

/-- The trampoline is where it was when the mappings for the kernel stay. -/
theorem Kept.trampoline_stays (kept : Kept l k) (stays : StaysOf k.memory m (k.pool s).pagetable)
    (held : (k.pool s).pagetable = some root) : space m (some root) trampolineVpn = trampolinePte l := by
  have old := kept.trampoline s root held
  have same := stays trampolineVpn trampoline_inside
  rw [held, old] at same
  exact same rfl rfl

theorem Kept.trapframe_stays (kept : Kept l k) (stays : StaysOf k.memory m (k.pool s).pagetable)
    (living : alive ((k.pool s).threads t) = true) :
    space m (k.pool s).pagetable (trapframeVpn t) = trapframePte l s t := by
  have old := kept.trapframe s t living
  have same := stays (trapframeVpn t) (trapframe_inside t)
  rw [old] at same
  exact same rfl rfl

/-- The invariant after a step that leaves all page tables in place and brings no thread to life. -/
theorem Kept.remake (kept : Kept l k) (sound : Sound l after.memory after.holding)
    (stays : Stays k.memory after.memory k.holding.roots)
    (roots : ∀ r, (after.pool r).pagetable = (k.pool r).pagetable)
    (used : ∀ r, (after.pool r).pagetable ≠ none → (after.pool r).state = .used)
    (living : ∀ r u, alive ((after.pool r).threads u) = true → alive ((k.pool r).threads u) = true)
    (bounds : ∀ r, (after.pool r).maxPage ≤ 2 ^ 21 ∧ (after.pool r).ustackBase + nthread ≤ 2 ^ 21) : Kept l after := by
  refine ⟨sound, used, fun r u lives => ?_, fun r page held => ?_, fun r u lives => ?_, bounds⟩
  · rw [roots r]
    exact kept.rooted r u (living r u lives)
  · rw [roots r] at held
    exact kept.trampoline_stays (stays r) held
  · rw [roots r]
    exact kept.trapframe_stays (stays r) (living r u lives)

/-- Memory changes and nothing else. -/
theorem Kept.remember (kept : Kept l k) (sound : Sound l m k.holding) (stays : Stays k.memory m k.holding.roots) :
    Kept l { k with memory := m } :=
  kept.remake sound stays (fun _ => rfl) kept.used (fun _ _ lives => lives) kept.bounds

@[simp] theorem setProcess_self (k : Kernel) (s : Slot) (p : Process) : (k.setProcess s p).pool s = p :=
  Function.update_self ..

theorem setProcess_other (k : Kernel) (s : Slot) (p : Process) {r : Slot} (other : r ≠ s) :
    (k.setProcess s p).pool r = k.pool r := Function.update_of_ne other ..

@[simp] theorem setProcess_memory (k : Kernel) (s : Slot) (p : Process) : (k.setProcess s p).memory = k.memory := rfl

/-- What holds of the process that is written and of all others holds of all processes. -/
theorem setProcess_forall {P : Slot → Process → Prop} {p : Process} (own : P s p)
    (others : ∀ r, r ≠ s → P r (k.pool r)) (r : Slot) : P r ((k.setProcess s p).pool r) := by
  by_cases same : r = s
  · subst same
    rw [setProcess_self]
    exact own
  · rw [setProcess_other k s p same]
    exact others r same

theorem setProcess_holding (k : Kernel) (s : Slot) (p : Process) :
    (k.setProcess s p).holding = k.holding.setRoot s p.pagetable := by
  rw [Kernel.holding, Holding.setRoot, Holding.mk.injEq]
  refine ⟨?_, rfl, rfl⟩
  funext r
  by_cases own : r = s
  · subst own
    rw [setProcess_self, Function.update_self]
  · rw [setProcess_other k s p own, Function.update_of_ne own]
    rfl

/-- One process is rewritten and memory changes with it. -/
theorem Kept.replace (kept : Kept l k) (p : Process) (sound : Sound l m (k.holding.setRoot s p.pagetable))
    (others : ∀ r, r ≠ s → StaysOf k.memory m (k.pool r).pagetable) (used : p.pagetable ≠ none → p.state = .used)
    (trampoline : ∀ root, p.pagetable = some root → space m (some root) trampolineVpn = trampolinePte l)
    (trapframe : ∀ u, alive (p.threads u) = true →
      p.pagetable ≠ none ∧ space m p.pagetable (trapframeVpn u) = trapframePte l s u)
    (bounds : p.maxPage ≤ 2 ^ 21 ∧ p.ustackBase + nthread ≤ 2 ^ 21) :
    Kept l { k.setProcess s p with memory := m } := by
  constructor
  · change Sound l m (k.setProcess s p).holding
    rw [setProcess_holding]
    exact sound
  · exact setProcess_forall (P := fun _ q => q.pagetable ≠ none → q.state = .used) used fun r _ => kept.used r
  · exact setProcess_forall (P := fun _ q => ∀ u, alive (q.threads u) = true → q.pagetable ≠ none)
      (fun u lives => (trapframe u lives).1) fun r _ => kept.rooted r
  · exact setProcess_forall
      (P := fun _ q => ∀ root, q.pagetable = some root → space m (some root) trampolineVpn = trampolinePte l)
      trampoline fun r other root => kept.trampoline_stays (others r other)
  · exact setProcess_forall
      (P := fun r q => ∀ u, alive (q.threads u) = true → space m q.pagetable (trapframeVpn u) = trapframePte l r u)
      (fun u lives => (trapframe u lives).2) fun r other u => kept.trapframe_stays (others r other)
  · exact setProcess_forall (P := fun _ q => q.maxPage ≤ 2 ^ 21 ∧ q.ustackBase + nthread ≤ 2 ^ 21) bounds
      fun r _ => kept.bounds r

theorem Holding.setRoot_self (h : Holding) (s : Slot) : h.setRoot s (h.roots s) = h := by
  rw [Holding.setRoot, Function.update_eq_self]

/-- One process is rewritten, but for its page table. -/
theorem Kept.rewrite (kept : Kept l k) (p : Process) (sound : Sound l m k.holding)
    (stays : Stays k.memory m k.holding.roots) (roots : p.pagetable = (k.pool s).pagetable)
    (used : p.pagetable ≠ none → p.state = .used)
    (living : ∀ u, alive (p.threads u) = true → alive ((k.pool s).threads u) = true ∨
      ((k.pool s).pagetable ≠ none ∧ space m (k.pool s).pagetable (trapframeVpn u) = trapframePte l s u))
    (bounds : p.maxPage ≤ 2 ^ 21 ∧ p.ustackBase + nthread ≤ 2 ^ 21) :
    Kept l { k.setProcess s p with memory := m } := by
  apply kept.replace p _ (fun r _ => stays r) used _ _ bounds
  · have same : k.holding.setRoot s p.pagetable = k.holding := by
      rw [roots]
      exact k.holding.setRoot_self s
    rw [same]
    exact sound
  · intro root held
    rw [roots] at held
    exact kept.trampoline_stays (stays s) held
  · intro u lives
    rw [roots]
    rcases living u lives with before | placed
    · exact ⟨kept.rooted s u before, kept.trapframe_stays (stays s) before⟩
    · exact placed

/-- A thread changes its state, but does not come to life. -/
theorem Kept.setThread (kept : Kept l k) (state : ThreadState)
    (living : alive state = true → alive ((k.pool s).threads t) = true) : Kept l (k.setThread s t state) := by
  let p : Process := { k.pool s with threads := Function.update (k.pool s).threads t state }
  have dying (u : Tid) (lives : alive (p.threads u) = true) : alive ((k.pool s).threads u) = true := by
    by_cases own : u = t
    · subst own
      simp only [p, Function.update_self] at lives
      exact living lives
    · simp only [p, Function.update_of_ne own] at lives
      exact lives
  exact kept.rewrite p kept.sound (fun _ _ _ _ _ => rfl) rfl (kept.used s) (fun u lives => Or.inl (dying u lives))
    (kept.bounds s)

/-- A new process has a page table of its own, or none when memory is short. -/
theorem allocproc_kept {slot : Option Slot} (kept : Kept l k) (done : allocproc l k = .ok (slot, after)) :
    Kept l after ∧ (slot = none → after = k) ∧ ∀ s, slot = some s → (k.pool s).state = .unused ∧ (after.pool s).state = .used ∧
      (after.pool s).threads = (k.pool s).threads ∧ (∀ r, r ≠ s → after.pool r = k.pool r) ∧
      ((after.pool s).pagetable = none → kalloc k.memory = (none, after.memory)) := by
  unfold allocproc at done
  split at done
  · simp only [Except.ok.injEq, Prod.mk.injEq] at done
    obtain ⟨rfl, rfl⟩ := done
    exact ⟨kept, fun _ => rfl, fun s impossible => by simp at impossible⟩
  · rename_i s found
    have unused := List.find?_some found
    rw [decide_eq_true_eq] at unused
    obtain ⟨⟨created, m⟩, creating, rest⟩ := bind_ok.mp done
    simp only [pure, Except.pure, Except.ok.injEq, Prod.mk.injEq] at rest
    obtain ⟨rfl, rfl⟩ := rest
    have vacant : k.holding.roots s = none := by
      by_contra held
      rw [kept.used s held] at unused
      simp at unused
    have dead (u : Tid) : alive ((k.pool s).threads u) = false := by
      by_contra lives
      exact kept.rooted s u (by simpa using lives) vacant
    obtain ⟨sound, stays, place⟩ := uvmcreate_sound kept.sound vacant creating
    let p : Process := { k.pool s with state := .used, parent := none, pagetable := created, maxPage := 0 }
    have invariant : Kept l { k.setProcess s p with memory := m } :=
      kept.replace p sound (fun r _ => stays r) (fun _ => rfl) place (fun u lives => by simp [p, dead u] at lives)
        ⟨Nat.zero_le _, (kept.bounds s).2⟩
    refine ⟨invariant, fun impossible => by simp at impossible, fun q same => ?_⟩
    obtain rfl := Option.some.inj same
    have own : ({ k.setProcess s p with memory := m } : Kernel).pool s = p := setProcess_self k s p
    refine ⟨unused, ?_, ?_, fun r => setProcess_other k s p, fun absent => ?_⟩
    · exact congrArg Process.state own
    · have threads : p.threads = (k.pool s).threads := rfl
      exact (congrArg Process.threads own).trans threads
    · have missing : created = none := (congrArg Process.pagetable own).symm.trans absent
      subst missing
      unfold uvmcreate at creating
      split at creating
      · rename_i alloc
        simp only [Except.ok.injEq, Prod.mk.injEq, true_and] at creating
        rw [alloc, creating]
      · obtain ⟨⟨mapped, last⟩, _, result⟩ := bind_ok.mp creating
        cases mapped with
        | false => simp at result
        | true => simp [pure, Except.pure] at result

theorem setProcess_twice (k : Kernel) (s : Slot) (p q : Process) : (k.setProcess s p).setProcess s q = k.setProcess s q := by
  simp [Kernel.setProcess]

/-- The process after a thread has been started. -/
def started (p : Process) (t : Tid) (maxPage : Nat) : Process :=
  { p with maxPage, threads := Function.update p.threads t .used }

@[simp] theorem started_thread (p : Process) (t : Tid) (maxPage : Nat) : (started p t maxPage).threads t = .used :=
  Function.update_self ..

/-- The main thread is found first if it is not in use. -/
theorem main_unused {threads : Tid → ThreadState} (main : threads 0 = .unused) :
    (List.finRange nthread).find? (fun t => threads t = .unused) = some 0 := by
  have head : List.finRange nthread = 0 :: (List.finRange 15).map Fin.succ := List.finRange_succ
  rw [head, List.find?_cons_of_pos (by simpa using main)]

/-- The first thread that is not in use is the main thread if that one is not in use. -/
theorem first_unused {threads : Tid → ThreadState} {t : Tid} (main : threads 0 = .unused)
    (found : (List.finRange nthread).find? (fun t => threads t = .unused) = some t) : t = 0 :=
  Option.some.inj (found.symm.trans (main_unused main))

/-- The trap frame of a thread is mapped before the thread comes to life. -/
theorem Kept.start {first : Memory} {maxPage : Nat} (kept : Kept l k) (rooted : (k.pool s).pagetable = some root)
    (sound : Sound l first k.holding) (stays : Stays k.memory first k.holding.roots) (bound : maxPage ≤ 2 ^ 21)
    (mapping : mapPage first root (trapframeVpn t) (l.trapframe s t) { r := true, w := true, x := false, u := false } =
      .ok (true, m)) : Kept l { k.setProcess s (started (k.pool s) t maxPage) with memory := m } := by
  have held : k.holding.roots s = some root := rooted
  have placed := mapPage_system sound held rfl rfl (trapframe_unmanaged l s t) (trapframe_high t) mapping
  apply kept.rewrite (started (k.pool s) t maxPage) placed.changed.sound (stays.trans placed.changed.stays) rfl (kept.used s)
  · intro u lives
    by_cases own : u = t
    · subst own
      refine Or.inr ⟨by simp [rooted], ?_⟩
      rw [rooted, ← held]
      exact placed.entry
    · simp only [started, Function.update_of_ne own] at lives
      exact Or.inl lives
  · exact ⟨bound, (kept.bounds s).2⟩

/-- A thread without pages for the user, as `fork` starts it. -/
theorem allocthread_fork {tid : Option Tid} (kept : Kept l k) (rooted : (k.pool s).pagetable = some root)
    (done : allocthread l k s root false = .ok (tid, after)) :
    Kept l after ∧ ∀ t, tid = some t → ((k.pool s).threads 0 = .unused → t = 0) ∧
      after.pool = Function.update k.pool s (started (k.pool s) t (k.pool s).maxPage) := by
  unfold allocthread at done
  split at done
  · simp only [Except.ok.injEq, Prod.mk.injEq] at done
    obtain ⟨rfl, rfl⟩ := done
    exact ⟨kept, fun t impossible => by simp at impossible⟩
  · rename_i t found
    simp only [Bool.false_eq_true, if_false] at done
    obtain ⟨mid, same, rest⟩ := bind_ok.mp done
    simp only [Except.ok.injEq] at same
    subst same
    obtain ⟨⟨mapped, m⟩, mapping, result⟩ := bind_ok.mp rest
    cases mapped with
    | false => simp at result
    | true =>
        simp only [if_true, pure, Except.pure, Except.ok.injEq, Prod.mk.injEq] at result
        obtain ⟨rfl, rfl⟩ := result
        refine ⟨kept.start rooted kept.sound (fun _ _ _ _ _ => rfl) (kept.bounds s).1 mapping, fun u same => ?_⟩
        obtain rfl := Option.some.inj same
        exact ⟨fun main => first_unused main found, rfl⟩

/-- What has become of a new thread: either it has a stack of its own or `kalloc` gave no page for its stack. -/
structure Threaded (l : Layout) (k after : Kernel) (s : Slot) (root : Page) (t : Tid) : Prop where
  unused : (k.pool s).threads t = .unused
  pool : ∃ maxPage, after.pool = Function.update k.pool s (started (k.pool s) t maxPage)
  backed : (kalloc k.memory).1 ≠ none → Kept l after
  unbacked : (kalloc k.memory).1 = none → (space after.memory (some root) (ustackVpn (k.pool s) t)).page = 0

/-- The stack of a new thread is one page. -/
theorem mapUstack_ok (done : mapUstack (k.setThread s t .used) s root t = .ok after) :
    ∃ page mid m, kalloc k.memory = (page, mid) ∧
      mapPage mid root (ustackVpn (k.pool s) t) (page.getD 0) { r := true, w := true, x := false, u := true } = .ok (true, m) ∧
      after = { k.setProcess s (started (k.pool s) t (max (k.pool s).maxPage (ustackVpn (k.pool s) t + 1))) with memory := m } := by
  have own : (k.setThread s t .used).pool s = { k.pool s with threads := Function.update (k.pool s).threads t .used } :=
    setProcess_self k s _
  have memory : (k.setThread s t .used).memory = k.memory := rfl
  rw [mapUstack, own, memory] at done
  obtain ⟨⟨mapped, m⟩, stack, rest⟩ := bind_ok.mp done
  rw [uvmmap] at stack
  obtain ⟨⟨first, mid⟩, mapping, last⟩ := bind_ok.mp stack
  cases first with
  | false =>
      simp only [Bool.false_eq_true, if_false, pure, Except.pure, Except.ok.injEq, Prod.mk.injEq] at last
      obtain ⟨rfl, rfl⟩ := last
      simp at rest
  | true =>
      simp only [if_true, uvmmap, Except.ok.injEq, Prod.mk.injEq] at last
      obtain ⟨rfl, rfl⟩ := last
      simp only [if_true, pure, Except.pure, Except.ok.injEq] at rest
      refine ⟨(kalloc k.memory).1, (kalloc k.memory).2, _, rfl, mapping, ?_⟩
      rw [← rest, Kernel.setThread, setProcess_twice]
      rfl

/-- A thread with a stack for the user. -/
theorem allocthread_user {tid : Option Tid} (kept : Kept l k) (rooted : (k.pool s).pagetable = some root)
    (done : allocthread l k s root true = .ok (tid, after)) :
    (tid = none ∧ after = k) ∨ ∃ t, tid = some t ∧ Threaded l k after s root t := by
  unfold allocthread at done
  split at done
  · simp only [Except.ok.injEq, Prod.mk.injEq] at done
    obtain ⟨rfl, rfl⟩ := done
    exact Or.inl ⟨rfl, rfl⟩
  · rename_i t found
    have unused := List.find?_some found
    rw [decide_eq_true_eq] at unused
    have held : k.holding.roots s = some root := rooted
    simp only [if_true] at done
    obtain ⟨mid, stack, rest⟩ := bind_ok.mp done
    obtain ⟨⟨mapped, m⟩, mapping, result⟩ := bind_ok.mp rest
    cases mapped with
    | false => simp at result
    | true =>
        simp only [if_true, pure, Except.pure, Except.ok.injEq, Prod.mk.injEq] at result
        obtain ⟨rfl, rfl⟩ := result
        refine Or.inr ⟨t, rfl, unused, ?_, fun given => ?_, fun denied => ?_⟩
        all_goals obtain ⟨page, first, second, alloc, placing, rfl⟩ := mapUstack_ok stack
        · exact ⟨_, rfl⟩
        · cases page with
          | none => simp [alloc] at given
          | some page =>
              have placed := alloc_mapped kept.sound rfl held alloc rfl rfl placing
              apply kept.start rooted placed.changed.sound placed.changed.stays _ mapping
              have bounds := kept.bounds s
              have limit : t.val < nthread := t.isLt
              rw [ustackVpn]
              omega
        · rw [alloc] at denied
          simp only at denied
          subst denied
          obtain ⟨sound, alike⟩ := alloc_failed kept.sound alloc
          obtain ⟨forest, inside, _, _, entry⟩ := mapPage_adds sound.forest held placing
          obtain ⟨_, _, vacant, remapped, _⟩ := mapPage_adds forest held mapping
          have apart : ustackVpn (k.pool s) t ≠ trapframeVpn t := by
            intro same
            rw [← same, entry] at vacant
            simp at vacant
          have same := remapped s (ustackVpn (k.pool s) t) inside fun both => apart both.2
          rw [held] at same entry
          rw [same, entry]
          rfl

end BtbuOs.Vm
