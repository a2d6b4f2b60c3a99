import BtbuOs.Vm.Exit

namespace BtbuOs.Vm

open Machine Partition
open Sync (nthread Tid ThreadState)
open Sched (nproc Slot ProcState)

variable {l : Layout} {k after : Kernel} {action : Action} {events : List Event}

/-- Memory as a call finds it, with the answers that `kalloc` is going to give. -/
def Kernel.prepared (k : Kernel) (denials : List Bool) : Memory := { k.memory with denials }

/-- Where `sys_thread_create` finds a free thread, `kalloc` gives a page for its stack; where `fork` or `sys_spawn` finds
a free slot, a first call of `kalloc` that fails is followed by one that fails. -/
def fed (k : Kernel) (action : Action) : Bool :=
  let m := k.prepared action.denials
  match action.call with
  | .thread s _ .threadCreate => decide ((∃ t, (k.pool s).threads t = .unused) → (kalloc m).1 ≠ none)
  | .thread _ _ .fork => decide ((∃ r, (k.pool r).state = .unused) → ¬starved m)
  | .thread _ _ (.spawn (some _) _) => decide ((∃ r, (k.pool r).state = .unused) → ¬starved m)
  | _ => true

/-- Every page that `kalloc` manages is free once or has one role, the page tables belong to processes in use, and
every mapping for the user leads to a page of `kalloc`. -/
structure FramesOwned (l : Layout) (k : Kernel) : Prop where
  placed : ∀ page, Managed l page →
    k.memory.free.count page = 1 ∧ (∀ role, occupant k.memory k.holding role ≠ some page) ∨
      page ∉ k.memory.free ∧ ∃! role, occupant k.memory k.holding role = some page
  live : ∀ s, (k.pool s).pagetable ≠ none → (k.pool s).state = .used
  user : ∀ s root vpn, (k.pool s).pagetable = some root → (space k.memory (some root) vpn).valid = true →
    (space k.memory (some root) vpn).perm.u = true →
    Managed l (space k.memory (some root) vpn).page ∧ (space k.memory (some root) vpn).page ∉ k.memory.free

/-- The invariant gives every page its place. -/
theorem Kept.framesOwned (kept : Kept l k) : FramesOwned l k := by
  refine ⟨fun page managed => kept.sound.owned.exactly managed, kept.used, fun s root vpn rooted valid user => ?_⟩
  have mine : occupant k.memory k.holding (.leaf s (px 0 vpn) (tablePath vpn)) =
      some (space k.memory (some root) vpn).page := by
    have held : k.holding.roots s = some root := rooted
    rw [occupant_leaf rfl, held, ← space, userPage, valid, user]
    rfl
  exact ⟨kept.sound.owned.roleManaged _ _ mine, kept.sound.owned.apart _ _ mine⟩

/-- At boot all managed pages are free. -/
theorem bootKernel_kept (l : Layout) : Kept l (bootKernel l) ∧ Led (bootKernel l) := by
  have nobody (role : Role) : occupant (bootKernel l).memory (bootKernel l).holding role = none := by
    cases role with
    | table s path =>
        rw [occupant]
        split
        · exact node_none _ path
        · rfl
    | leaf s i up =>
        rw [occupant]
        split
        · exact userPage_invalid (by rw [Kernel.holding, bootKernel, pteAt_none]; rfl)
        · rfl
    | object n => rfl
    | hand => rfl
  have listed (page : Page) : page ∈ (bootKernel l).memory.free ↔ Managed l page := by
    simp only [bootKernel, List.mem_reverse, List.mem_map, List.mem_range, Managed]
    constructor
    · rintro ⟨offset, inside, rfl⟩
      exact ⟨Nat.le_add_right _ _, Nat.add_lt_of_lt_sub' inside⟩
    · rintro ⟨lower, upper⟩
      exact ⟨page - l.ekernel, Nat.sub_lt_sub_right lower upper, Nat.add_sub_cancel' lower⟩
  refine ⟨⟨⟨⟨?_, fun page => (listed page).mp, ?_, ?_, ?_, fun page managed => Or.inl ((listed page).mpr managed)⟩, ?_, ?_⟩,
    fun s rooted => absurd rfl rooted, fun s t lives => by simp [bootKernel, alive] at lives,
    fun s root rooted => by simp [bootKernel] at rooted, fun s t lives => by simp [bootKernel, alive] at lives,
    fun s => ?_⟩, fun s => ledBy_unused fun t => rfl⟩
  · rw [bootKernel, List.nodup_reverse]
    exact List.nodup_range.map fun a b same => Nat.add_left_cancel same
  · intro role page held
    rw [nobody role] at held
    simp at held
  · intro role page held
    rw [nobody role] at held
    simp at held
  · intro role other page held
    rw [nobody role] at held
    simp at held
  · intro s i up short valid
    rw [Kernel.holding, bootKernel, pteAt_none] at valid
    simp [zeroPte] at valid
  · intro s i up length
    rw [Kernel.holding, bootKernel, pteAt_none]
    exact fits_zero l _
  · have small : 0 + nthread ≤ 2 ^ 21 := by decide
    exact ⟨Nat.zero_le _, small⟩

/-- The answers of `kalloc` are no part of the invariant. -/
theorem Kept.prepare (kept : Kept l k) (denials : List Bool) : Kept l { k with memory := k.prepared denials } := by
  have entries : (k.prepared denials).entry = k.memory.entry := rfl
  have alike := alike_entry entries k.holding.roots
  exact kept.remember (kept.sound.congr rfl alike) alike.stays

/-- A call that panics halts the kernel as it was. -/
theorem settle_kept {result : Except String (Kernel × List Event)} (kept : Kept l k) (led : Led k)
    (done : ∀ next emitted, result = .ok (next, emitted) → Kept l next ∧ Led next)
    (settled : settle k result = (after, events)) : Kept l after ∧ Led after := by
  cases result with
  | ok pair =>
      obtain ⟨next, emitted⟩ := pair
      obtain ⟨rfl, rfl⟩ := Prod.mk.inj settled
      exact done next emitted rfl
  | error message =>
      obtain ⟨rfl, rfl⟩ := Prod.mk.inj settled
      exact ⟨kept.relabel rfl rfl kept.used (fun _ => rfl) fun _ => ⟨rfl, rfl⟩, led⟩

/-- One call of a thread keeps the invariant. -/
theorem operate_kept {s : Slot} {t : Tid} {call : ThreadCall} (kept : Kept l k) (led : Led k) (used : (k.pool s).state = .used)
    (lives : alive ((k.pool s).threads t) = true) (allowed : fed k { call := .thread s t call, denials := k.memory.denials } = true)
    (done : operate l k s t call = .ok (after, events)) : Kept l after ∧ Led after := by
  have same : k.prepared k.memory.denials = k.memory := rfl
  cases call with
  | fork =>
      simp only [fed, same, decide_eq_true_eq] at allowed
      exact fork_kept kept led (fun r unused => allowed ⟨r, unused⟩) used done
  | spawn program fits =>
      cases program with
      | none =>
          simp only [operate, sysSpawn, Except.ok.injEq, Prod.mk.injEq] at done
          rw [← done.1]
          exact ⟨kept, led⟩
      | some length =>
          simp only [fed, same, decide_eq_true_eq] at allowed
          have spawned : sysSpawn l k s t (some length) fits = .ok (after, events) := done
          exact sysSpawn_kept kept led (fun r unused => allowed ⟨r, unused⟩) spawned
  | exec program fits => exact exec_kept kept led used lives done
  | threadCreate =>
      simp only [fed, same, decide_eq_true_eq] at allowed
      exact sysThreadCreate_kept kept led used lives (fun u unused => allowed ⟨u, unused⟩) done
  | waittid tid =>
      simp only [operate, Except.ok.injEq] at done
      have result : Kept l (sysWaittid k s t tid).1 ∧ Led (sysWaittid k s t tid).1 := sysWaittid_kept kept led
      rwa [done] at result
  | mmap start len prot => exact sysMmap_kept kept led done
  | munmap start len => exact sysMunmap_kept kept led done
  | trace request id data =>
      obtain ⟨traced, _, result⟩ := bind_ok.mp done
      simp only [pure, Except.pure, Except.ok.injEq, Prod.mk.injEq] at result
      rw [← result.1]
      exact ⟨kept, led⟩
  | wait np =>
      simp only [operate, Except.ok.injEq] at done
      have result : Kept l (wait k s np).1 ∧ Led (wait k s np).1 := wait_kept kept led
      rwa [done] at result
  | exit => exact exit_kept (kept.note none) led used lives done

/-- A step keeps the invariant when `kalloc` feeds the call. -/
theorem step_kept (kept : Kept l k) (led : Led k) (allowed : fed k action = true)
    (stepped : step l k action = some (after, events)) : Kept l after ∧ Led after := by
  have ready := kept.prepare action.denials
  obtain ⟨call, denials⟩ := action
  unfold step at stepped
  simp only at stepped
  split at stepped
  · simp at stepped
  · cases call with
    | loadInitApp length fits =>
        simp only at stepped
        split at stepped
        · rw [Option.some.injEq] at stepped
          exact settle_kept kept led (fun next emitted result => loadInitApp_kept ready led result) stepped
        · simp at stepped
    | takeObject n =>
        simp only at stepped
        split at stepped
        · rename_i vacant
          rw [Option.some.injEq] at stepped
          have result := takeObject_kept (n := n) ready led vacant.2
          have same : takeObject { k with memory := k.prepared denials } n = (after, events) := stepped
          rwa [same] at result
        · simp at stepped
    | dropObject n =>
        simp only at stepped
        split at stepped
        · rename_i page free held
          rw [Option.some.injEq] at stepped
          exact settle_kept kept led (fun next emitted result => dropObject_kept ready led held result) stepped
        · simp at stepped
    | thread s t call =>
        simp only at stepped
        split at stepped
        · simp at stepped
        · rename_i running
          rw [not_or, not_not, Bool.not_eq_false] at running
          split at stepped
          · simp at stepped
          · rw [Option.some.injEq] at stepped
            apply settle_kept kept led _ stepped
            intro next emitted result
            exact operate_kept ready led running.1 running.2 allowed result

/-- The invariant holds after every run in which `kalloc` feeds the calls that do not check it. -/
theorem reached_kept {trace : List Event}
    (reached : Reaches (step l) (fun k _ action => fed k action = true) (· = bootKernel l) k trace) : Kept l k ∧ Led k := by
  have base (k : Kernel) (begun : k = bootKernel l) : Kept l k ∧ Led k := by
    rw [begun]
    exact bootKernel_kept l
  have next (k : Kernel) (_ : List Event) (action : Action) (after : Kernel) (events : List Event) (holds : Kept l k ∧ Led k)
      (allowed : fed k action = true) (stepped : step l k action = some (after, events)) : Kept l after ∧ Led after :=
    step_kept holds.1 holds.2 allowed stepped
  exact reached.invariant (fun k _ => Kept l k ∧ Led k) base next

/-- Frame ownership holds after every run in which `kalloc` feeds the calls that do not check it. -/
theorem frames_owned (l : Layout) {k : Kernel} {trace : List Event}
    (reached : Reaches (step l) (fun k _ action => fed k action = true) (· = bootKernel l) k trace) : FramesOwned l k :=
  (reached_kept reached).1.framesOwned

def firstThread (call : ThreadCall) : Action := { call := .thread 0 0 call, denials := [] }

/-- A program is loaded and creates a thread. -/
def createRun : List Action := [{ call := .loadInitApp 1 true, denials := [] }, firstThread .threadCreate]

/-- Frame ownership in a run with memory enough. -/
theorem frames_owned_run : ∃ k trace,
    Reaches (step (smallLayout 12)) (fun k _ action => fed k action = true) (· = bootKernel (smallLayout 12)) k trace ∧
      alive ((k.pool 0).threads 1) = true ∧ FramesOwned (smallLayout 12) k := by
  obtain ⟨k, trace, reached, created⟩ := replay_witness (step (smallLayout 12)) (fun k _ action => fed k action = true)
    (· = bootKernel (smallLayout 12)) createRun (bootKernel (smallLayout 12)) rfl
    (fun k _ => alive ((k.pool 0).threads 1)) (by decide +kernel)
  exact ⟨k, trace, reached, created, frames_owned (smallLayout 12) reached⟩

/-- With seven pages the thread is created, and its stack is the page 0. -/
theorem stack_unowned : ∃ k trace, Reaches (step (smallLayout 7)) (fun _ _ _ => True) (· = bootKernel (smallLayout 7)) k trace ∧
    ¬FramesOwned (smallLayout 7) k := by
  obtain ⟨k, trace, reached, test⟩ := replay_witness (step (smallLayout 7)) (fun _ _ _ => True)
    (· = bootKernel (smallLayout 7)) createRun (bootKernel (smallLayout 7)) rfl
    (fun k _ => (k.pool 0).pagetable.any fun root =>
      decide (space k.memory (some root) 4 = { valid := true, perm := { r := true, w := true, x := false, u := true }, page := 0 }))
    (by decide +kernel)
  refine ⟨k, trace, reached, fun owned => ?_⟩
  rw [Option.any_eq_true] at test
  obtain ⟨root, rooted, entry⟩ := test
  rw [decide_eq_true_eq] at entry
  have user := (owned.user 0 root 4 rooted (by rw [entry]) (by rw [entry])).1
  rw [entry] at user
  exact absurd user.1 (by decide)

end BtbuOs.Vm
